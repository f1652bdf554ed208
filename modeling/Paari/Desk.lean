import Paari.Webhook
import Paari.Authority

/-!
# The settlement desk

What the handlers around a `ProviderTransaction` have in common, as a protocol.
A `Desk` is what one of them has on the table: the rows it has read, the provider
calls it made with their answers, and whether it holds the single use of an
authorization. The protocol says which `UPDATE`s such a handler may commit and
when it may ask a provider to create a payment. `Conduct` checks every handler
against it; the results on settlement are then about the protocol alone.
-/

namespace Paari

open Atomic

/-! ## Calls -/

/-- The authorization a payment-creating call is for. -/
def Op.submits : Op → Option String
  | .create_payment id _ _ _ => some id
  | .authorize_payment id _ _ _ _ _ => some id
  | _ => none

/-- The payment record in the answer to a read, as the code takes it out. -/
def Op.record : Op → Answer → Option Json
  | .get_payment _, a => a.toOption
  | .fetch_payments _, a => ((a.bind RazorpayAdapter.items).bind lastOrNone).toOption
  | .agentic_get_payment _, a => a.toOption
  | _, _ => none

/-- The operation reads the payment of the row that was loaded as `l` and is `c` now. -/
def Op.reads (l c : ProviderTransaction) : Op → Prop
  | .get_payment payment_id => l.razorpay_payment_id = some payment_id
  | .fetch_payments order_id => c.razorpay_order_id = some order_id
  | .agentic_get_payment ref => bindText ref = some c.razorpay_payment_id
  | _ => False

/-- The code's own test for "the provider confirms the capture of this authorization". -/
def Op.accepts (H : Host) (auth : BoundedAuthorization) : Op → Json → Prop
  | .agentic_get_payment _, record => corroborated H auth record = .ok true
  | _, record => ∃ p, paymentFields H record = .ok p ∧ p.status = "captured" ∧
      amountMismatch H auth p.amount = .ok false ∧ currencyMismatch H auth p.currency = false

/-- The capture replies on which the agentic path moves the row on before its commit. -/
def MOVING_STATUSES : List String :=
  ["captured", "already_captured", "authorized", "pending", "processing", "created",
    "declined", "cancelled", "canceled"]

/-- A capture call whose answer moves the transaction within the same commit. -/
def Call.movesOn (H : Host) (c : Call) (a : Answer) : Bool :=
  match c.op, a with
  | .capture_payment _ _ _ _, .ok reply =>
    match reply.getD "status" (.str "") with
    | .ok status => decide (pyLower H.toText status ∈ MOVING_STATUSES)
    | .error _ => false
  | _, _ => false

/-! ## Writes -/

/-- The `UPDATE`s of transaction rows among some writes. -/
def updates (ws : List Write) : List (ProviderTransaction × ProviderTransaction) :=
  ws.filterMap fun
    | .updateTxn l c => some (l, c)
    | _ => none

@[simp] theorem updates_nil : updates [] = [] := rfl

@[simp] theorem updates_append (xs ys : List Write) :
    updates (xs ++ ys) = updates xs ++ updates ys := List.filterMap_append

@[simp] theorem updates_audit (e : AuditEvent) (ws : List Write) :
    updates (.insertAudit e :: ws) = updates ws := rfl

@[simp] theorem updates_update (l c : ProviderTransaction) (ws : List Write) :
    updates (.updateTxn l c :: ws) = (l, c) :: updates ws := rfl

@[simp] theorem updates_insert (t : ProviderTransaction) (ws : List Write) :
    updates (.insertTxn t :: ws) = updates ws := rfl

@[simp] theorem updates_write (r : Orm) (ws : List Write) :
    updates (r.write :: ws) = (r.loaded, r.cur) :: updates ws := rfl

theorem mem_updates {l c : ProviderTransaction} {ws : List Write} :
    (l, c) ∈ updates ws ↔ .updateTxn l c ∈ ws := by
  unfold updates
  rw [List.mem_filterMap]
  constructor
  · rintro ⟨w, hw, h⟩
    cases w <;> simp at h
    obtain ⟨rfl, rfl⟩ := h
    exact hw
  · intro h
    exact ⟨_, h, rfl⟩

/-- The writes a settlement handler makes: audit events, burnt proofs, a new row in
`AUTHORIZED`, and `UPDATE`s of transaction rows. -/
inductive Write.Settles : Write → Prop
  | audit (e : AuditEvent) : Settles (.insertAudit e)
  | proof (p : RequestProof) : Settles (.insertProof p)
  | txn (t : ProviderTransaction) (h : t.state = .AUTHORIZED) : Settles (.insertTxn t)
  | update (l c : ProviderTransaction) : Settles (.updateTxn l c)

/-! ## The desk -/

/-- The single use of an authorization, as one handler sees it. -/
inductive Use
  | idle
  | armed (authorization_id : String)
  | won (authorization_id : String)
  | done
deriving DecidableEq

/-- A commit turns a reservation into a win, or loses it. -/
def Use.settle (ok : Bool) : Use → Use
  | armed id => if ok then won id else done
  | u => u

/-- What a settlement handler has on the table. -/
structure Desk where
  /-- Authorizations it has read. -/
  terms : List BoundedAuthorization
  /-- Transaction rows it has read since its last commit. -/
  rows : List ProviderTransaction
  /-- Provider calls, with their answers. -/
  calls : List (Call × Answer)
  use : Use
  /-- What it would do with the use of an authorization. -/
  role : Spend

namespace Desk

def empty (role : Spend) : Desk := ⟨[], [], [], .idle, role⟩

/-- The desk after a statement run on `w`. -/
def after (q : Desk) (s : Stmt) (w : World) : Desk :=
  match s with
  | .select => { q with terms := q.terms ++ w.db.authorizations, rows := q.rows ++ w.db.txns }
  | .commit ws => { q with rows := [], use := q.use.settle (w.db.applyAll ws).isOk }
  | .reserve id _ => { q with use := if w.reservable id then .armed id else q.use }
  | _ => q

/-- The desk after a call. -/
def called (q : Desk) (c : Call) (a : Answer) : Desk :=
  { q with
    calls := q.calls ++ [(c, a)]
    use := if c.op.submits = none then q.use else .done }

@[simp] theorem after_calls (q : Desk) (s : Stmt) (w : World) : (q.after s w).calls = q.calls := by
  cases s <;> rfl

@[simp] theorem after_role (q : Desk) (s : Stmt) (w : World) : (q.after s w).role = q.role := by
  cases s <;> rfl

theorem after_terms {q : Desk} {s : Stmt} {w : World} {a : BoundedAuthorization}
    (h : a ∈ (q.after s w).terms) : a ∈ q.terms ∨ a ∈ w.db.authorizations := by
  cases s with
  | select => exact List.mem_append.mp h
  | _ => exact .inl h

/-- A read for this row said `captured` with values the code accepts. -/
def Evidence (H : Host) (q : Desk) (l c : ProviderTransaction) : Prop :=
  ∃ call answer record auth, (call, answer) ∈ q.calls ∧ call.op.reads l c ∧
    call.op.record answer = some record ∧ auth ∈ q.terms ∧
    auth.authorization_id = l.authorization_id ∧ call.op.accepts H auth record

/-- A capture reply moved the transaction on. -/
def Moved (H : Host) (q : Desk) : Prop := ∃ call answer, (call, answer) ∈ q.calls ∧ call.movesOn H answer = true

/-- The `UPDATE` from `l` to `c` is one the desk may issue. -/
structure Sound (H : Host) (q : Desk) (l c : ProviderTransaction) : Prop where
  key : c.authorization_id = l.authorization_id
  legal : Legal l.state c.state
  paid : c.state = .PAID → l.state ≠ .PAID → q.Evidence H l c
  order : c.razorpay_order_id = l.razorpay_order_id ∨ present l.razorpay_order_id = false ∨
    ∃ call answer, (call, answer) ∈ q.calls ∧ call.op.submits ≠ none

/-- The transaction may be committed: at most one `UPDATE`, of a row on the desk or
just inserted; or the agentic path's two, the first flushed in mid-transaction. -/
structure Submittable (H : Host) (q : Desk) (ws : List Write) : Prop where
  settles : ∀ w ∈ ws, w.Settles
  rows : updates ws = [] ∨
    (∃ l c, updates ws = [(l, c)] ∧ (l ∈ q.rows ∨ .insertTxn l ∈ ws) ∧ q.Sound H l c) ∨
    (∃ l m c, updates ws = [(l, m), (m, c)] ∧ l ∈ q.rows ∧ l.state ≠ m.state ∧ q.Sound H l m ∧
      q.Sound H m c ∧ (Legal l.state c.state ∨ q.Moved H))

/-- What the desk may run. -/
def Allows (H : Host) (q : Desk) : Stmt → Prop
  | .select => True
  | .commit ws => q.Submittable H ws
  | .reserve _ spend => q.use = .idle ∧ spend = q.role
  | .rollback => q.use = .idle
  | _ => False

/-- Only the consumer that won the use of an authorization may submit it. -/
def MaySubmit (q : Desk) (id : String) : Prop := q.use = .won id ∧ q.role = .consume

/-- Whom it may call. -/
def AllowsCall (q : Desk) (c : Call) : Prop := ∀ id, c.op.submits = some id → q.MaySubmit id

/-- Nothing was taken off the table, and the use is where it was. -/
structure Ext (q q' : Desk) : Prop where
  terms : q.terms ⊆ q'.terms
  rows : q.rows ⊆ q'.rows
  calls : q.calls ⊆ q'.calls
  use : q'.use = q.use
  role : q'.role = q.role

theorem Ext.refl (q : Desk) : q.Ext q := ⟨fun _ h => h, fun _ h => h, fun _ h => h, rfl, rfl⟩

theorem Ext.trans {q q' q'' : Desk} (h : q.Ext q') (h' : q'.Ext q'') : q.Ext q'' :=
  ⟨fun _ hx => h'.terms (h.terms hx), fun _ hx => h'.rows (h.rows hx),
    fun _ hx => h'.calls (h.calls hx), h'.use.trans h.use, h'.role.trans h.role⟩

theorem MaySubmit.ext {q q' : Desk} {id : String} (h : q.MaySubmit id) (hq : q.Ext q') :
    q'.MaySubmit id :=
  ⟨hq.use.trans h.1, hq.role.trans h.2⟩

theorem ext_select (q : Desk) (w : World) : q.Ext (q.after .select w) :=
  ⟨fun _ h => List.mem_append_left _ h, fun _ h => List.mem_append_left _ h, fun _ h => h, rfl, rfl⟩

theorem ext_called {q : Desk} {c : Call} (h : c.op.submits = none) (a : Answer) :
    q.Ext (q.called c a) :=
  ⟨fun _ hx => hx, fun _ hx => hx, fun _ hx => List.mem_append_left _ hx, by simp [called, h], rfl⟩

variable {H : Host} {q q' : Desk} {l c : ProviderTransaction}

theorem Evidence.ext (h : q.Evidence H l c) (hq : q.Ext q') : q'.Evidence H l c := by
  obtain ⟨call, answer, record, auth, hc, hr, hrec, ha, hid, hacc⟩ := h
  exact ⟨call, answer, record, auth, hq.calls hc, hr, hrec, hq.terms ha, hid, hacc⟩

theorem Moved.ext (h : q.Moved H) (hq : q.Ext q') : q'.Moved H := by
  obtain ⟨call, answer, hc, hm⟩ := h
  exact ⟨call, answer, hq.calls hc, hm⟩

theorem Sound.ext (h : q.Sound H l c) (hq : q.Ext q') : q'.Sound H l c where
  key := h.key
  legal := h.legal
  paid := fun hc hl => (h.paid hc hl).ext hq
  order := by
    rcases h.order with ho | ho | ⟨call, answer, hcall, hs⟩
    · exact .inl ho
    · exact .inr (.inl ho)
    · exact .inr (.inr ⟨call, answer, hq.calls hcall, hs⟩)

theorem Sound.refl (H : Host) (q : Desk) (t : ProviderTransaction) : q.Sound H t t :=
  ⟨rfl, Legal.refl _, fun h h' => absurd h h', .inl rfl⟩

end Desk

/-- The protocol of the settlement handlers. -/
def desk (H : Host) : Protocol World Stmt Call Answer Desk where
  stmt q s w q' := q.Allows H s ∧ q' = q.after s w
  call q c a q' := q.AllowsCall c ∧ q' = q.called c a

/-! ## Rows in hand -/

/-- Pending writes that touch no transaction row. -/
def Session.Light (s : Session) : Prop :=
  ∀ w ∈ s, (∃ e, w = .insertAudit e) ∨ ∃ p, w = .insertProof p

namespace Session

theorem light_nil : Light [] := fun _ h => absurd h List.not_mem_nil

theorem Light.audit {s : Session} (h : s.Light) (e : AuditEvent) :
    Light (s ++ [.insertAudit e]) := by
  intro w hw
  rcases List.mem_append.mp hw with hw | hw
  · exact h w hw
  · exact .inl ⟨e, List.mem_singleton.mp hw⟩

theorem OnlyProofs.light {s : Session} (h : s.OnlyProofs) : s.Light :=
  fun w hw => .inr (h w hw)

theorem Light.settles {s : Session} (h : s.Light) : ∀ w ∈ s, w.Settles := by
  intro w hw
  rcases h w hw with ⟨e, rfl⟩ | ⟨p, rfl⟩
  · exact .audit e
  · exact .proof p

theorem Light.updates {s : Session} (h : s.Light) : updates s = [] := by
  unfold Paari.updates
  rw [List.filterMap_eq_nil_iff]
  intro w hw
  rcases h w hw with ⟨e, rfl⟩ | ⟨p, rfl⟩ <;> rfl

end Session

namespace Desk

variable {H : Host} {q q' : Desk} {r r' : Orm}

/-- The row was read since the last commit; its state and its payment are as read. -/
structure Holds (H : Host) (q : Desk) (r : Orm) : Prop where
  mem : r.loaded ∈ q.rows
  sound : q.Sound H r.loaded r.cur
  steady : r.cur.state = r.loaded.state
  payment : r.cur.razorpay_payment_id = r.loaded.razorpay_payment_id

theorem holds_fresh {t : ProviderTransaction} (h : t ∈ q.rows) : q.Holds H (Orm.fresh t) :=
  ⟨h, Sound.refl H q t, rfl, rfl⟩

theorem Holds.ext (h : q.Holds H r) (hq : q.Ext q') : q'.Holds H r :=
  ⟨hq.rows h.mem, h.sound.ext hq, h.steady, h.payment⟩

/-- Assigning columns that neither name the row nor place it. -/
theorem Holds.sound_set (h : q.Holds H r) {f : ProviderTransaction → ProviderTransaction}
    (hkey : (f r.cur).authorization_id = r.cur.authorization_id)
    (hstate : (f r.cur).state = r.cur.state)
    (horder : (f r.cur).razorpay_order_id = r.cur.razorpay_order_id) :
    q.Sound H r.loaded (f r.cur) where
  key := hkey.trans h.sound.key
  legal := hstate ▸ h.sound.legal
  paid := fun hp hl => absurd ((hstate.trans h.steady).symm.trans hp) hl
  order := horder ▸ h.sound.order

theorem Holds.set (h : q.Holds H r) {f : ProviderTransaction → ProviderTransaction}
    (hkey : (f r.cur).authorization_id = r.cur.authorization_id)
    (hstate : (f r.cur).state = r.cur.state)
    (horder : (f r.cur).razorpay_order_id = r.cur.razorpay_order_id)
    (hpayment : (f r.cur).razorpay_payment_id = r.cur.razorpay_payment_id) :
    q.Holds H (r.set f) :=
  ⟨h.mem, h.sound_set hkey hstate horder, hstate.trans h.steady, hpayment.trans h.payment⟩

theorem Holds.fail (h : q.Holds H r) (text : String) : q.Holds H (r.fail text) :=
  h.set rfl rfl rfl rfl

end Desk

/-- `transition_txn` on a row in a session. -/
theorem Orm.move_ok {r r' : Orm} {to_state : TxnState} (h : r.move to_state = .ok r') :
    to_state ∈ TRANSITION_TABLE r.cur.state ∧ r' = ⟨r.loaded, { r.cur with state := to_state }⟩ := by
  unfold Orm.move at h
  split at h
  · next cur hcur =>
    obtain ⟨hmem, rfl⟩ := transition_txn_ok hcur
    exact ⟨hmem, (Except.ok.inj h).symm⟩
  · exact absurd h (by simp)

namespace Desk

variable {H : Host} {q q' : Desk} {r r' : Orm}

/-- A row in hand may move once; to `PAID` only on evidence. -/
theorem Holds.move (h : q.Holds H r) {to_state : TxnState} (hm : r.move to_state = .ok r')
    (hpaid : to_state = .PAID → q.Evidence H r.loaded r'.cur) : q.Sound H r'.loaded r'.cur := by
  obtain ⟨hmem, rfl⟩ := Orm.move_ok hm
  refine ⟨h.sound.key, .inr ?_, fun hp _ => hpaid hp, h.sound.order⟩
  show to_state ∈ TRANSITION_TABLE r.loaded.state
  rw [← h.steady]
  exact hmem

/-- One light transaction with one sound `UPDATE`. -/
theorem submit_one {pending : Session} (hp : pending.Light) (hmem : r.loaded ∈ q.rows)
    (hs : q.Sound H r.loaded r.cur) : q.Submittable H (pending ++ [r.write]) where
  settles := by
    intro w hw
    rcases List.mem_append.mp hw with hw | hw
    · exact hp.settles w hw
    · rw [List.mem_singleton.mp hw]
      exact .update _ _
  rows := .inr (.inl ⟨r.loaded, r.cur, by simp [hp.updates], .inl hmem, hs⟩)

/-- A light transaction without an `UPDATE`. -/
theorem submit_light {pending : Session} (hp : pending.Light) : q.Submittable H pending :=
  ⟨hp.settles, .inl hp.updates⟩

end Desk

/-! ## Steps of a handler at the desk -/

section
variable {H : Host} {q : Desk} {α β : Type} {Post : β → Desk → Prop}

theorem desk_query {f : DB → α} {k : α → Handler β}
    (h : ∀ w : World, (k (f w.db)).Conforms (desk H) Post (q.after .select w)) :
    (Handler.query f >>= k).Conforms (desk H) Post q :=
  fun w => ⟨_, ⟨trivial, rfl⟩, h w⟩

theorem desk_now {k : Instant → Handler β}
    (h : ∀ t q', q.Ext q' → (k t).Conforms (desk H) Post q') :
    (Handler.now >>= k).Conforms (desk H) Post q :=
  fun w => ⟨_, ⟨trivial, rfl⟩, h _ _ (Desk.ext_select q w)⟩

/-- Parts that only read leave everything on the table. -/
theorem conforms_reads {R : α → Prop} {p : Handler α} (hp : p.Reads R) :
    p.Conforms (desk H) (fun a q' => q.Ext q' ∧ R a) q := by
  have hstep : ∀ q s w, s = Stmt.select → ∃ q', (desk H).stmt q s w q' ∧ q.Ext q' := by
    rintro q s w rfl
    exact ⟨q.after .select w, ⟨trivial, rfl⟩, Desk.ext_select q w⟩
  exact Prog.conforms_of_quiet Desk.Ext.refl (fun _ _ _ => Desk.Ext.trans) hstep hp

theorem desk_reads {R : α → Prop} {p : Handler α} {k : α → Handler β} (hp : p.Reads R)
    (hk : ∀ a q', q.Ext q' → R a → (k a).Conforms (desk H) Post q') :
    (p >>= k).Conforms (desk H) Post q :=
  Prog.conforms_seq (conforms_reads hp) fun a q' ha => hk a q' ha.1 ha.2

/-- A part that only reads and may already raise the answer. -/
theorem desk_attempt {R : Except Reply α → Prop} {p : Handler (Except Reply α)}
    {k : α → Handler Reply} (hp : p.Reads R)
    (hk : ∀ a q', q.Ext q' → R (.ok a) → (k a).Conforms (desk H) (fun _ _ => True) q') :
    (Handler.attempt p k).Conforms (desk H) (fun _ _ => True) q := by
  refine desk_reads hp fun r q' hq hr => ?_
  cases r with
  | error e => trivial
  | ok a => exact hk a q' hq hr

/-- What most endpoints start with: the session token, then the session. -/
theorem desk_authenticated {k : Authenticated → Handler Reply} {ctx : RequestContext}
    {token : String} {expected : Option String}
    (hk : ∀ a q', q.Ext q' → a.pending.OnlyProofs →
      (k a).Conforms (desk H) (fun _ _ => True) q') :
    (Handler.attempt (pure (resolve_session_token H token ctx.authorization)) fun token =>
      Handler.attempt (authenticate H ctx token expected) k).Conforms (desk H)
        (fun _ _ => True) q := by
  have hpure : (pure (resolve_session_token H token ctx.authorization) :
      Handler (Except Reply String)).Reads fun _ => True := trivial
  refine desk_attempt hpure fun token q₁ hq₁ _ => ?_
  refine desk_attempt (authenticate_reads H ctx token expected) fun a q₂ hq₂ ha => ?_
  exact hk a q₂ (hq₁.trans hq₂) (ha a rfl)

/-- Access an expired row. -/
theorem desk_loadTxn {id : String} {k : Orm → Handler β}
    (h : ∀ t q', q.Ext q' → t ∈ q'.rows → t.authorization_id = id →
      (k (Orm.fresh t)).Conforms (desk H) Post q') :
    (loadTxn id >>= k).Conforms (desk H) Post q := by
  refine conforms_loadTxn fun w => ⟨q.after .select w, ⟨trivial, rfl⟩, fun t ht hid => ?_⟩
  exact h t _ (Desk.ext_select q w) (List.mem_append_right _ ht) hid

theorem desk_commit {ws : List Write} {k : Unit → Handler β} (hs : q.Submittable H ws)
    (h : ∀ q', q'.terms = q.terms → q'.use = q.use.settle true → q'.role = q.role →
      (k ()).Conforms (desk H) Post q') :
    (Handler.commit ws >>= k).Conforms (desk H) Post q := by
  refine Handler.conforms_commit fun w => ⟨q.after (.commit ws) w, ⟨hs, rfl⟩, fun db hdb => ?_⟩
  refine h _ rfl ?_ rfl
  show q.use.settle (w.db.applyAll ws).isOk = _
  rw [hdb]
  rfl

/-- A commit, with nothing said about what follows. -/
theorem commit_conforms {ws : List Write} (hs : q.Submittable H ws) :
    (Handler.commit ws).Conforms (desk H) (fun _ _ => True) q := by
  refine fun w => ⟨q.after (.commit ws) w, ⟨hs, rfl⟩, ?_⟩
  show (Handler.committed (w.db.applyAll ws)).Conforms (desk H) (fun _ _ => True) _
  cases w.db.applyAll ws <;> trivial

theorem desk_send {recipient : Recipient} {op : Op} {k : Answer → Handler β}
    (hs : q.AllowsCall ⟨recipient, op⟩)
    (h : ∀ a, (k a).Conforms (desk H) Post (q.called ⟨recipient, op⟩ a)) :
    (Handler.send recipient op >>= k).Conforms (desk H) Post q :=
  fun a => ⟨_, ⟨hs, rfl⟩, h a⟩

end

end Paari
