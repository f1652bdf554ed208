import Paari.Authenticity
import Paari.Books
import Paari.Revocation

/-!
# Who keeps the books

Every request but two keeps the books of every trace: `submit_intent` and `mfa_verify`
mint, the settlement handlers tell each change they commit, and the rest tells of no
state. A consumption tells its first change twice and its failures not at all, and a
review that expires tells of a state that is no transaction's: a run keeps the books of a
trace as long as neither happens on it.
-/

namespace Paari

open Atomic

variable {H : Host} {w : World} {i : Nat} {t : String} {calls : List (Call × Option Answer)}

/-! ## What a consumption writes -/

/-- The row of one authorization. -/
structure Orm.Of (id : String) (r : Orm) : Prop where
  loaded : r.loaded.authorization_id = id
  cur : r.cur.authorization_id = id

section
variable {id : String} {r r' : Orm}

theorem Orm.Of.set (h : r.Of id) {f : ProviderTransaction → ProviderTransaction}
    (hf : (f r.cur).authorization_id = r.cur.authorization_id) : (r.set f).Of id :=
  ⟨h.loaded, hf.trans h.cur⟩

theorem Orm.Of.fail (h : r.Of id) (text : String) : (r.fail text).Of id := h.set rfl

theorem Orm.Of.flushed (h : r.Of id) : r.flushed.Of id := ⟨h.cur, h.cur⟩

theorem Orm.Of.moveOrPass (h : r.Of id) (to_state : TxnState) : (r.moveOrPass to_state).Of id := by
  refine h.set ?_
  rcases transition_or_pass_cases r.cur to_state with hc | ⟨-, hc⟩ <;> rw [hc]

theorem Orm.Of.move (h : r.Of id) {to_state : TxnState} (hm : r.move to_state = .ok r') :
    r'.Of id := by
  obtain ⟨-, rfl⟩ := Orm.move_ok hm
  exact ⟨h.loaded, h.cur⟩

end

section
variable {P : Write → Prop} {α β : Type} {R : β → Prop} {id : String}

theorem writes_loadTxn {k : Orm → Handler β} (h : ∀ row : Orm, row.Of id → (k row).Writes P R) :
    (loadTxn id >>= k).Writes P R := by
  exact conforms_loadTxn fun w =>
    ⟨(), fun _ hs => absurd hs (by simp), fun _ _ hid => h _ ⟨hid, hid⟩⟩

theorem writes_send {r : Recipient} {op : Op} {k : Answer → Handler β}
    (h : ∀ a, (k a).Writes P R) : (Handler.send r op >>= k).Writes P R :=
  fun a => ⟨(), trivial, h a⟩

/-- The writes of one execution: of its own row, and of events on its own trace. -/
structure Execution.May (P : Write → Prop) (x : Execution) : Prop where
  row : ∀ l c : ProviderTransaction, l.authorization_id = x.auth.authorization_id → P (.updateTxn l c)
  audit : ∀ e : AuditEvent, e.transaction_id = x.auth.transaction_id → P (.insertAudit e)

/-- What a settlement path leaves to its `except` blocks stays within that. -/
def Within (P : Write → Prop) (id : String) : Except Raised Reply → Prop
  | .error raised => raised.pending.All P ∧ ∀ r, raised.row = some r → r.Of id
  | .ok _ => True

/-- No entry under a label. -/
def Unlabelled (detail : List (String × Json)) : Bool :=
  detail.all fun kv => !LABELS.contains kv.1

/-- The same, where each event also ends with the labels of the execution and has no others. -/
structure Execution.Marks (P : Write → Prop) (x : Execution) : Prop where
  row : ∀ l c : ProviderTransaction, l.authorization_id = x.auth.authorization_id → P (.updateTxn l c)
  audit : ∀ (e : AuditEvent) (base : List (String × Json)),
    e.transaction_id = x.auth.transaction_id → e.kind ≠ "llm_tool_call" →
      Unlabelled base = true → e.detail = base ++ x.llm → P (.insertAudit e)

theorem Execution.May.marks {x : Execution} (hx : x.May P) : x.Marks P :=
  ⟨hx.row, fun e _ htrace _ _ _ => hx.audit e htrace⟩

/-- An event with all that it was recorded with. -/
theorem writes_event {s : Session} {a : AuditArgs} {k : Session → Handler β}
    (h : ∀ e : AuditEvent, e.kind = a.kind → e.detail = a.detail →
      e.transaction_id = a.transaction_id → (k (s ++ [.insertAudit e])).Writes P R) :
    (record_audit H s a >>= k).Writes P R :=
  fun _ => ⟨(), fun _ hs => absurd hs (by simp), h _ rfl rfl rfl⟩

variable {x : Execution} {s : Session} {row : Orm}

theorem Execution.Marks.write (hx : x.Marks P) (hr : row.Of x.auth.authorization_id) : P row.write :=
  hx.row _ _ hr.loaded

/-- An event of the execution, of any other kind than a tool call. -/
theorem Execution.Marks.told (hx : x.Marks P) {e : AuditEvent} {kind : String}
    {base : List (String × Json)} (hkind : e.kind = (x.audit kind base).kind)
    (he : e.detail = (x.audit kind base).detail)
    (htrace : e.transaction_id = (x.audit kind base).transaction_id)
    (htool : kind ≠ "llm_tool_call" := by decide) (hbase : Unlabelled base = true := by rfl) :
    P (.insertAudit e) :=
  hx.audit e base htrace (fun h => htool (hkind.symm.trans h)) hbase he

theorem answerConsumed_writes (hx : x.Marks P) (hs : s.All P) (hr : row.Of x.auth.authorization_id)
    (ref : Json) : (answerConsumed x s row ref).Writes P fun _ => True :=
  Handler.writes_commit (hs.append (Session.all_one (hx.write hr))) (writes_loadTxn fun _ _ => trivial)

/-- An answer is no exception. -/
theorem answered_writes (hx : x.Marks P) (hs : s.All P) (hr : row.Of x.auth.authorization_id)
    (ref : Json) : (answerConsumed x s row ref >>= fun reply => pure (.ok reply)).Writes P
      (Within P x.auth.authorization_id) :=
  Handler.writes_bind (answerConsumed_writes hx hs hr ref) fun _ _ => trivial

theorem failClosed_writes (hx : x.Marks P) (text : String) (answer : Orm → Reply) :
    (failClosed x text answer).Writes P fun _ => True := by
  refine writes_loadTxn fun row hr => ?_
  exact Handler.writes_commit (Session.all_one (hx.write ((hr.moveOrPass _).fail _)))
    (writes_loadTxn fun _ _ => trivial)

/-- An exception with the row in hand. -/
theorem within_row (hs : s.All P) (hr : row.Of id) (e : Exc) : Within P id (.error ⟨e, some row, s⟩) :=
  ⟨hs, fun _ h => Option.some.inj h ▸ hr⟩

theorem within_exc (e : Exc) : Within P id (.error { exc := e }) :=
  ⟨Session.all_nil, fun _ h => absurd h (by simp)⟩

theorem confirm_agentic_writes (hx : x.Marks P) (hs : s.All P) (hr : row.Of x.auth.authorization_id)
    (ref : Json) :
    (confirm_agentic H x s row ref).Writes P (Within P x.auth.authorization_id) := by
  unfold confirm_agentic
  split
  · exact within_row hs hr _
  · next row₂ hmove =>
    obtain ⟨row₁, h₁, h₂⟩ : ∃ row₁, row.move .PROVIDER_AUTHORIZED = .ok row₁ ∧
        row₁.move .CAPTURED = .ok row₂ := by
      cases h₁ : row.move .PROVIDER_AUTHORIZED with
      | error e => rw [h₁] at hmove; exact absurd hmove (by simp [Except.bind])
      | ok row₁ => rw [h₁] at hmove; exact ⟨row₁, rfl, hmove⟩
    have hr₂ := (hr.move h₁).move h₂
    refine writes_send fun answer => ?_
    split
    · exact within_row hs hr₂ _
    · split
      · exact within_row hs hr₂ _
      · exact answered_writes hx hs (hr₂.fail _) ref
      · split
        · exact within_row hs hr₂ _
        · next row₃ hmove₃ =>
          refine writes_event fun e hkind he htrace => ?_
          have haudit := hx.told hkind he htrace (by decide) rfl
          exact answered_writes hx (hs.append (Session.all_one haudit)) (hr₂.move hmove₃) ref

theorem settle_capture_writes (hx : x.Marks P) (hs : s.All P) (hr : row.Of x.auth.authorization_id)
    (ref reply : Json) :
    (settle_capture H x s row ref reply).Writes P (Within P x.auth.authorization_id) := by
  have hfinish : ∀ (to_state : TxnState) (text : String),
      (finish_capture x s row ref to_state text).Writes P (Within P x.auth.authorization_id) := by
    intro to_state text
    unfold finish_capture
    split
    · exact within_row hs hr _
    · next row' hmove => exact answered_writes hx hs ((hr.move hmove).fail _) ref
  unfold settle_capture
  split
  · exact within_row hs hr _
  · dsimp only
    split
    · exact confirm_agentic_writes hx hs hr ref
    · split
      · exact hfinish _ _
      · split
        · exact hfinish _ _
        · exact hfinish _ _

theorem capture_agentic_writes (hx : x.Marks P) (adapter : AgenticAdapter) (ref : Json) :
    (capture_agentic H x adapter ref).Writes P (Within P x.auth.authorization_id) := by
  refine writes_loadTxn fun row hr => ?_
  dsimp only
  split
  · exact within_row Session.all_nil hr _
  · next moved hmove =>
    split
    · trivial
    · next payment_id _ =>
      have hstamped := ((hr.move hmove).set (f := fun t => adapter.provenance.elim t fun v => v.stamp t)
        (by cases adapter.provenance <;> rfl)).set
          (f := fun t => { t with razorpay_payment_id := payment_id }) rfl
      refine writes_event fun e hkind he htrace => ?_
      refine writes_event fun e' hkind' he' htrace' => ?_
      have haudit := hx.told hkind he htrace (by decide) rfl
      have haudit' := hx.told hkind' he' htrace' (by decide) rfl
      have hs := ((Session.all_one (hx.write hstamped)).append (Session.all_one haudit)).append
        (Session.all_one haudit')
      have hflushed := hstamped.flushed
      refine writes_send fun capture => ?_
      split
      · exact answered_writes hx hs ((hflushed.moveOrPass _).fail _) ref
      · exact settle_capture_writes hx hs hflushed ref _

theorem consume_agentic_settlement_writes (hx : x.Marks P) (adapter : AgenticAdapter) :
    (consume_agentic_settlement H x adapter).Writes P (Within P x.auth.authorization_id) := by
  refine Handler.writes_now fun now => Handler.writes_query fun binding => ?_
  split
  · exact Handler.writes_bind (failClosed_writes hx _ _) fun _ _ => trivial
  · refine writes_send fun validation => ?_
    split
    · exact within_exc _
    · split
      · split
        · exact Handler.writes_bind (failClosed_writes hx _ _) fun _ _ => trivial
        · refine writes_send fun authorized => ?_
          split
          · exact within_exc _
          · split
            · split
              · exact within_exc _
              · exact capture_agentic_writes hx adapter _
            · exact within_exc _
      · exact within_exc _

/-- The row of an `except` block. -/
theorem writes_access {raised : Raised} {k : Orm → Handler β}
    (hraised : Within P id (.error raised)) (h : ∀ row : Orm, row.Of id → (k row).Writes P R) :
    (raised.access id >>= k).Writes P R := by
  unfold Raised.access
  cases hr : raised.row with
  | none => exact writes_loadTxn h
  | some r => exact h r (hraised.2 r hr)

/-- The body of an `except` block that records the exception. -/
theorem writes_record (hx : x.Marks P) {raised : Raised} {k : Unit → Handler β} {to_state : TxnState}
    {text : String} (hraised : Within P x.auth.authorization_id (.error raised))
    (hk : (k ()).Writes P R) :
    (raised.access x.auth.authorization_id >>= fun row =>
      Handler.commit (raised.pending ++ [((row.moveOrPass to_state).fail text).write]) >>= k).Writes P R :=
  writes_access hraised fun _ hr => Handler.writes_commit
    (Session.All.append hraised.1 (Session.all_one (hx.write ((hr.moveOrPass _).fail _)))) hk

theorem agentic_path_writes (hx : x.Marks P) (adapter : AgenticAdapter) :
    (agentic_path H x adapter).Writes P fun _ => True := by
  refine Handler.writes_bind (consume_agentic_settlement_writes hx adapter) fun result hresult => ?_
  split
  · trivial
  · split
    · exact writes_record hx hresult trivial
    · trivial
    · exact writes_record hx hresult trivial

theorem handle_raised_writes (hx : x.Marks P) {raised : Raised}
    (hraised : Within P x.auth.authorization_id (.error raised)) :
    (handle_raised H x raised).Writes P fun _ => True := by
  unfold handle_raised
  dsimp only
  split
  · trivial
  · rw [Prog.bind_assoc]
    exact writes_record hx hraised trivial
  · rw [Prog.bind_assoc]
    exact writes_record hx hraised trivial
  · rw [Prog.bind_assoc]
    exact writes_record hx hraised (writes_loadTxn fun _ _ => trivial)
  · rw [Prog.bind_assoc]
    exact writes_record hx hraised trivial

theorem submit_order_writes (hx : x.Marks P) (provider : RazorpayAdapter) (order : Json) :
    (submit_order H x provider order).Writes P (Within P x.auth.authorization_id) := by
  unfold submit_order
  split
  · exact within_exc _
  · split
    · trivial
    · next order_id _ =>
      refine writes_loadTxn fun row hr => ?_
      dsimp only
      have hstamped := (hr.set (f := fun t => { t with razorpay_order_id := order_id }) rfl).set
        (f := (provider.provenance H).stamp) rfl
      split
      · exact within_row Session.all_nil hstamped _
      · next row' hmove =>
        refine writes_event fun e hkind he htrace => writes_event fun e' hkind' he' htrace' => ?_
        have haudit := hx.told hkind he htrace (by decide) rfl
        have haudit' := hx.told hkind' he' htrace' (by decide) rfl
        refine Handler.writes_commit ?_ (writes_loadTxn fun _ _ => trivial)
        exact ((Session.all_one (hx.write (hstamped.move hmove))).append
          (Session.all_one haudit)).append (Session.all_one haudit')

/-- A request to the provider writes nothing. -/
theorem request_writes (provider : RazorpayAdapter) (op : Op) :
    (provider.request H op).Writes P fun _ => True := by
  unfold RazorpayAdapter.request
  split
  · trivial
  · exact fun a => ⟨(), trivial, trivial⟩

theorem create_order_writes (hx : x.Marks P) :
    (create_order H x).Writes P (Within P x.auth.authorization_id) := by
  refine Handler.writes_query fun provider => ?_
  split
  · exact within_exc _
  · next provider =>
    have hcreate : ∀ id amount currency notes,
        (provider.create_payment H id amount currency notes).Writes P fun _ => True := by
      intro id amount currency notes
      unfold RazorpayAdapter.create_payment
      split
      · trivial
      · exact Handler.writes_bind (request_writes provider _) fun _ _ => trivial
    refine Handler.writes_bind (hcreate _ _ _ _) fun order _ => ?_
    split
    · exact within_exc _
    · split
      · exact within_exc _
      · exact submit_order_writes hx provider _
      · refine writes_loadTxn fun row hr => ?_
        split
        · exact within_row Session.all_nil hr _
        · next row' hmove =>
          exact Handler.writes_commit (Session.all_one (hx.write ((hr.move hmove).fail _))) trivial

theorem execute_marks (hx : x.Marks P) : (execute H x).Writes P fun _ => True := by
  unfold execute
  split
  · exact handle_raised_writes hx (within_exc _)
  · split
    · trivial
    · split
      · exact agentic_path_writes hx _
      · split
        · exact failClosed_writes hx _ _
        · refine Handler.writes_bind (create_order_writes hx) fun result hresult => ?_
          split
          · trivial
          · exact handle_raised_writes hx hresult

theorem execute_writes (hx : x.May P) : (execute H x).Writes P fun _ => True :=
  execute_marks hx.marks

end

/-! ## One row, settled alone -/

theorem Books.beside {db : DB} (hb : Books t db) : Beside t none db := ⟨hb, fun _ h => absurd h (by simp)⟩

theorem Books.rollback (hb : Books t w.db) (i : Nat) : Books t (w.rollback i).db :=
  ((beside_stable t none).rollback i hb.beside).1

/-- The part keeps the books. -/
abbrev Keeps {α : Type} (t : String) (i : Nat) (p : Handler α) (calls : List (Call × Option Answer))
    (w : World) : Prop :=
  p.Wp (World.exec i) (fun w' _ _ => Books t w'.db) calls w

section
variable {α : Type} {s : Session} {row row' : Orm} {auth : BoundedAuthorization}
  {Q : World → List (Call × Option Answer) → Option α → Prop}

theorem wp_commit_tally {k : Unit → Handler α} (hb : Books t w.db) (h : Tally t w.db s row)
    (hlost : ∀ w' : World, Books t w'.db → Q w' calls none)
    (hk : ∀ w' : World, Books t w'.db → (k ()).Wp (World.exec i) Q calls w') :
    (Handler.commit (s ++ [row.write]) >>= k).Wp (World.exec i) Q calls w :=
  wp_commit (fun _ _ => hlost _ (hb.rollback i)) fun _ hdb' => hk _ (hb.commit h hdb')

/-- An event on the trace of a payment. -/
theorem wp_audit_trace {k : Session → Handler α} {r : ProviderTransaction} {kind : String}
    {detail : List (String × Json)} (hb : Books t w.db)
    (hk : ∀ e : AuditEvent, e.detail = detail →
      (∀ u ∈ w.db.users, u.1 = r.authorization_id → e.transaction_id = u.2) →
      (k (s ++ [.insertAudit e])).Wp (World.exec i) Q calls w) :
    (audit_txn H s r kind detail >>= k).Wp (World.exec i) Q calls w := by
  refine Prog.wp_bind (wp_query (wp_query (hk _ rfl fun u hu hid => ?_)))
  rw [← hb.trace_of hu r.authorization_id, hid]
  rfl

/-- The event that tells a transition just made. -/
theorem Tally.moved {db : DB} (h : Tally t db s row) {to_state : TxnState}
    (hm : row.move to_state = .ok row') {e : AuditEvent}
    (htrace : ∀ u ∈ db.users, u.1 = row'.cur.authorization_id → e.transaction_id = u.2)
    (hpair : e.pair = some (row.cur.state.word, to_state.word)) :
    Tally t db (s ++ [.insertAudit e]) row' := by
  obtain ⟨-, rfl⟩ := Orm.move_ok hm
  exact h.tell (fun u hu hid => htrace u hu (hid.trans h.key.symm)) hpair rfl rfl

theorem commitState_keeps (hb : Books t w.db) (h : Tally t w.db s row) :
    Keeps t i (commitState s row) calls w :=
  wp_commit_tally hb h (fun _ hb' => hb') fun _ hb' => wp_loadTxn hb' fun _ _ => hb'

theorem rejectConfirmation_keeps (hb : Books t w.db) (h : Tally t w.db [] row) {text : String}
    {detail : List (String × Json)}
    (hmute : pairOf (detail ++ [("stage", .str "capture_confirmation")]) = none) :
    Keeps t i (rejectConfirmation H row text detail) calls w :=
  wp_audit_trace hb fun _ he _ =>
    commitState_keeps hb ((h.fail text).note ((congrArg pairOf he).trans hmute))

theorem confirmPaid_keeps (hb : Books t w.db) (h : Tally t w.db [] row) (p : PaymentFields) :
    Keeps t i (confirmPaid H row auth p) calls w := by
  unfold confirmPaid
  split
  · exact hb
  · exact rejectConfirmation_keeps hb h rfl
  · split
    · exact rejectConfirmation_keeps hb h rfl
    · dsimp only
      split
      · exact hb
      · next row' hmove =>
        split
        · exact hb
        · refine wp_audit_trace hb fun e he htrace => commitState_keeps hb ?_
          exact (h.moved hmove htrace ((congrArg pairOf he).trans rfl)).set rfl rfl

theorem confirmFailed_keeps (hb : Books t w.db) (h : Tally t w.db [] row) (p : PaymentFields) :
    Keeps t i (confirmFailed H row p) calls w := by
  unfold confirmFailed
  dsimp only
  split
  · exact hb
  · next row' hmove =>
    refine wp_audit_trace hb fun e he htrace => commitState_keeps hb ?_
    exact (h.moved hmove htrace ((congrArg pairOf he).trans rfl)).fail _

theorem confirm_capture_keeps {provider : RazorpayAdapter} (hb : Books t w.db)
    (h : Tally t w.db [] row) : Keeps t i (confirm_capture H provider row) calls w := by
  refine wp_query ?_
  split
  · exact hb
  · refine Prog.wp_bind (Prog.wp_mono ?_ read_payment_wp)
    rintro w' c r rfl
    match r with
    | none => exact hb
    | some (.error e) => exact commitState_keeps hb (h.fail _)
    | some (.ok payment) =>
      dsimp only
      split
      · exact hb
      · split
        · exact hb
        · split
          · exact confirmPaid_keeps hb h _
          · split
            · exact confirmFailed_keeps hb h _
            · exact hb

/-! ## Reconciling -/

/-- What `reconcile_one` leaves in its session tells its changes so far. -/
def Leftover (t : String) (db : DB) : Except Raised Reconciled → Prop
  | .error raised => ∃ r, raised.row = some r ∧ Tally t db raised.pending r
  | .ok res => match res.row with
    | some r => Tally t db res.pending r
    | none => res.pending = []

/-- The part keeps the books, and leaves its session in order. -/
abbrev Tallies (t : String) (i : Nat) (p : Handler (Except Raised Reconciled))
    (calls : List (Call × Option Answer)) (w : World) : Prop :=
  p.Wp (World.exec i) (fun w' _ res => Books t w'.db ∧ ∀ r, res = some r → Leftover t w'.db r) calls w

theorem tallies_return (hb : Books t w.db) {r : Except Raised Reconciled} (h : Leftover t w.db r) :
    Tallies t i (pure r) calls w := ⟨hb, fun _ hr => Option.some.inj hr ▸ h⟩

theorem tallies_halt (hb : Books t w.db) :
    Books t w.db ∧ ∀ r : Except Raised Reconciled, none = some r → Leftover t w.db r :=
  ⟨hb, fun _ h => absurd h (by simp)⟩

theorem reconcileCommit_tallies (hb : Books t w.db) (h : Tally t w.db s row) (status : String) :
    Tallies t i (reconcileCommit s row status) calls w := by
  refine Prog.wp_bind (Prog.wp_mono ?_ (commitState_keeps hb h))
  intro w' c r hb'
  cases r with
  | none => exact tallies_halt hb'
  | some state => exact tallies_return hb' rfl

theorem reconcileExit_tallies (hb : Books t w.db) (h : Tally t w.db s row) (to_state : TxnState)
    (ref : String × Json) : Tallies t i (reconcileExit H s row to_state ref) calls w := by
  unfold reconcileExit
  dsimp only
  split
  · exact tallies_return hb h
  · next row' hmove =>
    refine wp_audit_trace hb fun e he htrace => reconcileCommit_tallies hb ?_ _
    exact h.moved hmove htrace ((congrArg pairOf he).trans rfl)

theorem rejectPayment_tallies (hb : Books t w.db) (h : Tally t w.db s row) (p : PaymentFields)
    (text : String) : Tallies t i (rejectPayment H s row auth p text) calls w :=
  wp_audit_trace hb fun _ he _ =>
    reconcileCommit_tallies hb ((h.fail text).note ((congrArg pairOf he).trans rfl)) _

theorem finishAdoption_tallies (hb : Books t w.db) (h : Tally t w.db s row) (target : TxnState)
    (p : PaymentFields) : Tallies t i (finishAdoption s row target p) calls w := by
  unfold finishAdoption
  split
  · split
    · exact tallies_halt hb
    · exact reconcileCommit_tallies hb (h.set rfl rfl) _
  · exact reconcileCommit_tallies hb h _

theorem adopt_payment_tallies (hb : Books t w.db) (h : Tally t w.db s row) (p : PaymentFields) :
    Tallies t i (adopt_payment H s row auth p) calls w := by
  unfold adopt_payment
  split
  · exact tallies_return hb h
  · split
    · exact tallies_return hb ⟨row, rfl, h⟩
    · exact rejectPayment_tallies hb h p _
    · split
      · exact rejectPayment_tallies hb h p _
      · split
        · exact finishAdoption_tallies hb h _ p
        · split
          · exact tallies_return hb h
          · next moved hmove =>
            refine wp_query (wp_audit_trace hb fun e he htrace => finishAdoption_tallies hb ?_ _ p)
            exact h.moved hmove htrace ((congrArg pairOf he).trans rfl)

theorem adopt_status_tallies (hb : Books t w.db) (h : Tally t w.db s row) (payment : Json) :
    Tallies t i (adopt_status H s row auth payment) calls w := by
  unfold adopt_status
  split
  · exact tallies_return hb ⟨row, rfl, h⟩
  · split
    · exact reconcileExit_tallies hb h _ _
    · exact adopt_payment_tallies hb h _

theorem fetch_order_wp {provider : RazorpayAdapter} (receipt : String) :
    (provider.fetch_order_by_receipt H receipt).Wp (World.exec i) (fun w' _ _ => w' = w) calls w := by
  refine Prog.wp_bind (Prog.wp_mono ?_ (request_wp _))
  rintro w' c (_ | a) rfl <;> exact rfl

theorem reconcile_payment_tallies {provider : RazorpayAdapter} (hb : Books t w.db)
    (h : Tally t w.db s row) (payment : Json) :
    Tallies t i (reconcile_payment H s provider row auth payment) calls w := by
  unfold reconcile_payment
  split
  · exact adopt_status_tallies hb h payment
  · refine Prog.wp_bind (Prog.wp_mono ?_ (fetch_order_wp _))
    rintro w' c r rfl
    cases r with
    | none => exact tallies_halt hb
    | some order =>
      dsimp only
      split
      · exact adopt_status_tallies hb h payment
      · split
        · split
          · exact reconcileExit_tallies hb h _ _
          · split
            · exact reconcileExit_tallies hb h _ _
            · exact adopt_status_tallies hb h payment
        · exact tallies_return hb ⟨row, rfl, h⟩
        · exact tallies_return hb ⟨row, rfl, h⟩

theorem reconcile_read_tallies {provider : RazorpayAdapter} (hb : Books t w.db)
    (h : Tally t w.db s row) : Tallies t i (reconcile_read H s provider row auth) calls w := by
  refine Prog.wp_bind (Prog.wp_mono ?_ read_payment_wp)
  rintro w' c r rfl
  match r with
  | none => exact tallies_halt hb
  | some (.error e) => exact reconcileCommit_tallies hb (h.fail _) _
  | some (.ok payment) =>
    dsimp only
    split
    · exact reconcileCommit_tallies hb h _
    · exact reconcile_payment_tallies hb h payment

theorem reconcile_row_tallies (hb : Books t w.db) (h : Tally t w.db s row) :
    Tallies t i (reconcile_row H s row) calls w := by
  unfold reconcile_row
  split
  · exact tallies_return hb h
  · refine wp_query ?_
    split
    · exact tallies_return hb h
    · refine wp_query ?_
      split
      · exact reconcileCommit_tallies hb (h.fail _) _
      · split
        · refine Prog.wp_bind (Prog.wp_mono ?_ (fetch_order_wp _))
          rintro w' c r rfl
          match r with
          | none => exact tallies_halt hb
          | some (.error e) => exact tallies_return hb ⟨row, rfl, h⟩
          | some (.ok found) =>
            dsimp only
            split
            · exact reconcile_read_tallies hb h
            · split
              · exact tallies_return hb ⟨row, rfl, h⟩
              · split
                · exact reconcile_read_tallies hb h
                · split
                  · exact tallies_halt hb
                  · exact reconcile_read_tallies hb (h.set rfl rfl)
        · exact reconcile_read_tallies hb h

end

/-! ## The worker -/

theorem tally_row {db : DB} (hb : Books t db) {r : ProviderTransaction} (hr : r ∈ db.txns) :
    Tally t db [] (Orm.fresh r) := by
  refine Tally.fresh (k := r.authorization_id) (fun _ hx => absurd hx List.not_mem_nil) ?_
  cases hfind : db.txns.find? fun r' => r'.authorization_id == r.authorization_id with
  | none => exact absurd (List.find?_eq_none.mp hfind r hr) (by simp)
  | some r' =>
    have hid : r'.authorization_id = r.authorization_id := by simpa using List.find?_some hfind
    rw [hb.rows.eq (List.mem_of_find?_eq_some hfind) hr hid]

/-- A row read back, with nothing pending. -/
theorem tally_found {db : DB} {k : String} {r : ProviderTransaction}
    (h : db.txns.find? (fun r => r.authorization_id == k) = some r) : Tally t db [] (Orm.fresh r) :=
  .fresh (fun _ hx => absurd hx List.not_mem_nil) h

section
variable {s : Session} {row : Orm}

theorem commit_keeps (hb : Books t w.db) (h : Tally t w.db s row) :
    Keeps t i (Handler.commit (s ++ [row.write])) calls w := by
  have hdone : Books t (w.commit i (s ++ [row.write])).db := by
    unfold World.commit
    split
    · next db' hdb' => exact hb.commit h hdb'
    · exact hb.rollback i
  show (Handler.committed (w.db.applyAll (s ++ [row.write]))).Wp _ _ _ _
  cases w.db.applyAll (s ++ [row.write]) <;> exact hdone

theorem dead_letter_keeps (hb : Books t w.db) (h : Tally t w.db s row) (n : Int) :
    Keeps t i (dead_letter H n s row) calls w := by
  have hcounted := h.set (f := fun t => { t with attempts := t.attempts + 1 }) rfl rfl
  unfold dead_letter
  dsimp only
  split
  · exact commit_keeps hb hcounted
  · split
    · exact commit_keeps hb (hcounted.fail _)
    · next moved hmove =>
      refine wp_audit_trace hb fun e he htrace => commit_keeps hb (Tally.fail ?_ _)
      exact hcounted.moved hmove htrace ((congrArg pairOf he).trans rfl)

theorem batch_row_keeps (hb : Books t w.db) (h : Tally t w.db [] row) (n : Int) :
    Keeps t i (batch_row H n row) calls w := by
  refine Prog.wp_bind (Prog.wp_mono ?_ (reconcile_row_tallies hb h))
  rintro w' c r ⟨hb', hleft⟩
  match r with
  | none => exact hb'
  | some (.error raised) =>
    obtain ⟨after, hafter, htally⟩ := hleft _ rfl
    dsimp only
    rw [hafter]
    exact commit_keeps hb' (htally.fail _)
  | some (.ok res) =>
    have hleft : Leftover t w'.db (.ok res) := hleft _ rfl
    unfold Leftover at hleft
    dsimp only at hleft ⊢
    split
    · exact hb'
    · split
      · next after hafter =>
        rw [hafter] at hleft
        exact dead_letter_keeps hb' hleft n
      · next hnone =>
        rw [hnone] at hleft
        refine wp_loadTxn hb' fun r hr => ?_
        rw [show res.pending = [] from hleft]
        exact dead_letter_keeps hb' (tally_found hr) n

theorem batch_rest_keeps (n : Int) : ∀ (rows : List ProviderTransaction) {w : World}
    {calls : List (Call × Option Answer)}, Books t w.db →
    Keeps t i (batch_rest H n rows) calls w := by
  intro rows
  induction rows with
  | nil => exact fun hb => hb
  | cons r rows ih =>
    intro w calls hb
    refine wp_loadTxn hb fun row hrow => ?_
    refine Prog.wp_bind (Prog.wp_mono ?_ (batch_row_keeps hb (tally_found hrow) n))
    intro w' c u hb'
    cases u with
    | none => exact hb'
    | some u => exact ih hb'

theorem run_batch_keeps (hb : Books t w.db) (n : Int) : Keeps t i (run_batch H n) calls w := by
  refine wp_query ?_
  split
  · exact hb
  · next r rest hrows =>
    have hr : r ∈ w.db.txns := by
      refine List.mem_of_mem_filter (hrows ▸ List.mem_cons_self : r ∈ w.db.txns.filter _)
    refine Prog.wp_bind (Prog.wp_mono ?_ (batch_row_keeps hb (tally_row hb hr) n))
    intro w' c u hb'
    cases u with
    | none => exact hb'
    | some u =>
      refine Prog.wp_bind (Prog.wp_mono ?_ (batch_rest_keeps n rest hb'))
      intro w'' c' u' hb''
      cases u' <;> exact hb''

theorem manual_reconcile_keeps (hb : Books t w.db) (ctx : RequestContext) (id token : String) :
    Keeps t i (manual_reconcile H ctx id token) calls w := by
  refine wp_query ?_
  split
  · exact hb
  · refine wp_authenticated hb (fun _ => hb) fun tok a _ ha => ?_
    have hone : Keeps t i (reconcile_one H a.pending id) calls w := by
      refine wp_query ?_
      split
      · exact hb
      · next r hr =>
        exact Prog.wp_mono (fun _ _ _ h => h.1) (reconcile_row_tallies hb (.fresh ha.pending hr))
    refine Prog.wp_bind (Prog.wp_mono ?_ hone)
    intro w' c r hb'
    match r with
    | none => exact hb'
    | some (.ok _) => exact hb'
    | some (.error _) => exact hb'

end

/-! ## Provider events and refunds -/

section
variable {r : ProviderTransaction} {auth : BoundedAuthorization}

/-- The authorization of a row is its owner. -/
theorem Books.owner {db : DB} (hb : Books t db) {k : String} (hauth : auth ∈ db.authorizations ∧
    auth.authorization_id = k) : ∀ u ∈ db.users, u.1 = k → auth.transaction_id = u.2 := by
  intro u hu hid
  have hmem : (auth.authorization_id, auth.transaction_id) ∈ db.users := List.mem_map_of_mem hauth.1
  exact congrArg Prod.snd (hb.same hmem hu (hauth.2.trans hid.symm))

/-- An event of the payment that tells of no change. -/
theorem Books.audit {db db' : DB} (hb : Books t db) {e : AuditEvent}
    (hloop : e.transaction_id = t → ∃ u ∈ db.users, u.2 = t ∧ (db.Sole t u →
      walk (db.foundState u.1).word e.pair.toList = some (db.foundState u.1).word))
    (h : db.apply (.insertAudit e) = some db') : Books t db' := by
  obtain rfl := Option.some.inj h
  have hpairs := apply_pairs (t := t) h
  refine ⟨hb.keys, hb.rows, hb.owned, fun hno => ?_, fun u hu => ?_⟩
  · rw [hpairs, hb.unused hno]
    show (if e.transaction_id = t then e.pair.toList else []) = []
    split
    · next htrace =>
      obtain ⟨u, hu, hut, -⟩ := hloop htrace
      exact absurd hut (hno u hu)
    · rfl
  · rw [hpairs, walk_append, hb.settled u hu]
    show walk (db.foundState u.1).word (if e.transaction_id = t then e.pair.toList else []) =
      some (db.foundState u.1).word
    split
    · next htrace =>
      obtain ⟨v, hv, hvt, hwalk⟩ := hloop htrace
      obtain rfl := hu.2.2 v hv hvt
      exact hwalk hu
    · rfl

theorem rejectEvent_keeps (hb : Books t w.db) (hr : r ∈ w.db.txns)
    (hauth : auth ∈ w.db.authorizations ∧ auth.authorization_id = r.authorization_id)
    {kind org_id : String} {detail : List (String × Json)} {reply : Reply}
    (hpair : pairOf detail = none ∨ pairOf detail = some (r.state.word, r.state.word)) :
    Keeps t i (rejectEvent H auth kind org_id detail reply) calls w := by
  refine wp_record_audit (wp_commit (fun _ _ => hb.rollback i) fun db' hdb' => ?_)
  obtain ⟨mid, hmid, hrest⟩ := applyAll_cons hdb'
  obtain rfl := Except.ok.inj hrest
  refine hb.audit (fun htrace => ⟨_, List.mem_map_of_mem hauth.1, htrace, fun _ => ?_⟩) hmid
  have hstate : w.db.foundState auth.authorization_id = r.state := by
    have := (tally_row hb hr).state
    unfold DB.foundState
    rw [hauth.2]
    exact congrArg (Option.getD · _) this
  rw [hstate]
  show walk _ (pairOf detail).toList = _
  rcases hpair with hpair | hpair <;> rw [hpair]
  · rfl
  · exact if_pos rfl

theorem applyEvent_keeps {provider : RazorpayAdapter} (hb : Books t w.db) (hr : r ∈ w.db.txns)
    (hauth : auth ∈ w.db.authorizations ∧ auth.authorization_id = r.authorization_id)
    (e : WebhookEvent) (event_id : String) (target : TxnState) :
    Keeps t i (applyEvent H provider (Orm.fresh r) auth e event_id target) calls w := by
  unfold applyEvent
  dsimp only
  split
  · exact hb
  · next moved hmove =>
    split
    · exact hb
    · refine wp_query (wp_query (wp_record_audit ?_))
      have howner := hb.owner hauth
      have hkey : moved.cur.authorization_id = r.authorization_id := by
        obtain ⟨-, rfl⟩ := Orm.move_ok hmove
        rfl
      refine wp_commit_tally hb (Tally.set (((tally_row hb hr).moved hmove ?_ rfl)) rfl rfl)
        (fun _ hb' => hb') fun w' hb' => ?_
      · exact fun u hu hid => howner u hu (hid.trans hkey)
      · refine wp_loadTxn hb' fun row hrow => ?_
        split
        · refine Prog.wp_bind (Prog.wp_mono ?_ (confirm_capture_keeps hb' (tally_found hrow)))
          intro w'' c state hb''
          cases state <;> exact hb''
        · exact hb'

theorem checkEvent_keeps {provider : RazorpayAdapter} (hb : Books t w.db) (hr : r ∈ w.db.txns)
    (hauth : auth ∈ w.db.authorizations ∧ auth.authorization_id = r.authorization_id)
    (raw : String) (e : WebhookEvent) :
    Keeps t i (checkEvent H provider raw (Orm.fresh r) auth e) calls w := by
  refine wp_query ?_
  split
  · exact hb
  · exact rejectEvent_keeps hb hr hauth (.inr rfl)
  · split
    · refine wp_query ?_
      split
      · exact hb
      · split
        · exact hb
        · split
          · exact hb
          · exact rejectEvent_keeps hb hr hauth (.inl rfl)
          · exact applyEvent_keeps hb hr hauth e _ _
    · exact hb

theorem razorpay_webhook_keeps (hb : Books t w.db) (raw signature : String) :
    Keeps t i (razorpay_webhook H raw signature) calls w := by
  unfold razorpay_webhook
  split
  · exact hb
  split
  · exact hb
  split
  · exact hb
  split
  · exact hb
  next order_id _ =>
  refine wp_query (wp_query ?_)
  split
  · exact hb
  split
  · exact hb
  split
  · exact hb
  next order_id _ _ =>
  refine wp_query ?_
  split
  · exact hb
  next found hfound =>
  -- nothing was written between the two lookups
  have hsame : identity ((some order_id).bind (txnByOrder w.db)) found = found := by
    rw [Option.bind_some, hfound]
    exact if_pos rfl
  rw [hsame]
  refine wp_query ?_
  split
  · exact hb
  next auth hauth =>
  exact checkEvent_keeps hb (List.mem_of_find?_eq_some hfound) (stored_of_find hauth) raw _

theorem record_refund_keeps {s : Session} {row : Orm} (hb : Books t w.db) (h : Tally t w.db s row)
    {found : Option BoundedAuthorization}
    (hfound : ∀ u ∈ w.db.users, u.1 = row.cur.authorization_id →
      (found.map BoundedAuthorization.transaction_id).getD row.cur.authorization_id = u.2)
    (amount : Int) (result : Json) :
    Keeps t i (record_refund H s row found amount result) calls w := by
  unfold record_refund
  dsimp only
  split
  · exact hb
  · next row' hmove =>
    have hkey : row'.cur.authorization_id = row.cur.authorization_id := by
      obtain ⟨-, rfl⟩ := Orm.move_ok hmove
      rfl
    refine wp_query (wp_query (wp_record_audit (wp_commit_tally hb ?_ (fun _ hb' => hb') fun w' hb' => ?_)))
    · refine h.moved hmove (fun u hu hid => ?_) rfl
      rw [← hfound u hu (hid.trans hkey), ← hkey]
      rfl
    · refine wp_loadTxn hb' fun _ _ => ?_
      split <;> exact hb'

theorem refund_authorization_keeps (hb : Books t w.db) (ctx : RequestContext) (id : String)
    (req : RefundRequest) : Keeps t i (refund_authorization H ctx id req) calls w := by
  refine wp_query ?_
  split
  · exact hb
  next r hr =>
  refine wp_authenticated hb (fun _ => hb) fun tok a _ ha => ?_
  have htally : Tally t w.db a.pending (Orm.fresh r) := .fresh ha.pending hr
  have hid : r.authorization_id = id := by simpa using List.find?_some hr
  dsimp only
  split
  · exact hb
  split
  · exact hb
  refine wp_query ?_
  split
  · exact hb
  refine wp_query ?_
  split
  · exact hb
  refine Prog.wp_bind ?_
  unfold RazorpayAdapter.refund
  split
  · refine wp_commit_tally hb (htally.fail _) (fun _ hb' => hb') fun _ hb' => hb'
  · refine Prog.wp_mono ?_ (request_wp _)
    rintro w' c res rfl
    match res with
    | none => exact hb
    | some (.error e) => exact wp_commit_tally hb (htally.fail _) (fun _ hb' => hb') fun _ hb' => hb'
    | some (.ok result) =>
      refine record_refund_keeps hb htally (fun u hu hu' => ?_) _ result
      have hu' : u.1 = id := hu'.trans hid
      rw [← hb.trace_of hu r.authorization_id, hu']
      rfl

end

end Paari
