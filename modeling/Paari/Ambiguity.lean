import Paari.Adoption
import Paari.Custody

/-!
# When a payment is written off

A payment-creating call may be accepted by the provider and still come back as an error.
`consume_authorization` records a timeout as `PROVIDER_UNKNOWN`, and every other error as
`FAILED`, which nobody looks up again where there is no order id.
`accepted_not_written_off` says exactly when a consumption leaves a payment that the
provider accepted `FAILED` or `DECLINED`.
-/

namespace Paari

open Atomic

variable {H : Host} {w : World} {i : Nat} {id : String} {calls : List (Call × Option Answer)}

/-! ## One transaction's state through a commit -/

/-- What a write does to the state of the transaction of `id`. -/
def Write.onState (id : String) : Write → Option TxnState → Option TxnState
  | .updateTxn l c, s =>
    if l.authorization_id = id then s.map fun s => if c.state = l.state then s else c.state else s
  | .insertTxn t, s => if t.authorization_id = id then some (s.getD t.state) else s
  | _, s => s

/-- The state after some writes. -/
def Session.onState (id : String) (ws : Session) (s : Option TxnState) : Option TxnState :=
  ws.foldl (fun s x => x.onState id s) s

theorem stateOf_of_txns {db db' : DB} (h : db'.txns = db.txns) : db'.stateOf id = db.stateOf id := by
  unfold DB.stateOf
  rw [h]

theorem apply_stateOf {db db' : DB} {x : Write} (h : db.apply x = some db') :
    db'.stateOf id = x.onState id (db.stateOf id) := by
  cases x with
  | updateTxn l c =>
    simp only [DB.apply] at h
    split at h
    · exact absurd h (by simp)
    · obtain rfl := Option.some.inj h
      show ((updateWhere _ _ db.txns).find? _).map _ = _
      unfold Write.onState DB.stateOf
      dsimp only
      rw [updateWhere, List.find?_map]
      have hsame : ((fun t : ProviderTransaction => t.authorization_id == id) ∘ fun t =>
          if (t.authorization_id == l.authorization_id) = true
          then ProviderTransaction.patch l c t else t) = fun t => t.authorization_id == id := by
        funext t
        dsimp only [Function.comp]
        split <;> rfl
      rw [hsame]
      cases hfind : db.txns.find? fun t => t.authorization_id == id with
      | none => simp
      | some t =>
        have hid : t.authorization_id = id := by simpa using List.find?_some hfind
        by_cases hl : l.authorization_id = id
        · simp [hl, hid, ProviderTransaction.patch]
        · have hne : t.authorization_id ≠ l.authorization_id := by
            rw [hid]
            exact fun heq => hl heq.symm
          simp [hl, hne]
  | insertTxn t =>
    simp only [DB.apply, insertUnique] at h
    split at h
    · exact absurd h (by simp)
    · obtain rfl := Option.some.inj h
      show ((db.txns ++ [t]).find? _).map _ = _
      unfold Write.onState DB.stateOf
      dsimp only
      rw [List.find?_append]
      cases hfind : db.txns.find? fun t => t.authorization_id == id with
      | none => by_cases ht : t.authorization_id = id <;> simp [ht]
      | some r => by_cases ht : t.authorization_id = id <;> simp [ht]
  | _ =>
    -- a write to another table
    refine stateOf_of_txns ?_
    first
      | obtain rfl := Option.some.inj h
        rfl
      | obtain ⟨_, _, hrows⟩ := Option.bind_eq_some_iff.mp h
        obtain rfl := Option.some.inj hrows
        rfl

theorem applyAll_stateOf {ws : List Write} : ∀ {db db' : DB}, db.applyAll ws = .ok db' →
    db'.stateOf id = Session.onState id ws (db.stateOf id) := by
  induction ws with
  | nil =>
    intro db db' h
    rw [← Except.ok.inj h]
    rfl
  | cons x ws ih =>
    intro db db' h
    obtain ⟨mid, hmid, hrest⟩ := applyAll_cons h
    rw [ih hrest, apply_stateOf hmid]
    rfl

/-- An order id that no other transaction has. -/
def Own (id order_id : String) (db : DB) : Prop :=
  ∀ t ∈ db.txns, t.razorpay_order_id = some order_id → t.authorization_id = id

/-- No unique constraint stands in the way: an audit event, or an `UPDATE` of the
transaction of `id` that brings no order id but its own. -/
def Write.Harmless (id : String) (db : DB) (x : Write) : Prop :=
  (∃ e, x = .insertAudit e) ∨ ∃ l c, x = .updateTxn l c ∧ l.authorization_id = id ∧
    c.webhook_event_id = l.webhook_event_id ∧
    (c.razorpay_order_id = l.razorpay_order_id ∨ ∀ s, c.razorpay_order_id = some s → Own id s db)

/-- A harmless write goes through, and leaves every order id to its owner. -/
theorem Write.Harmless.apply {db : DB} {x : Write} (h : x.Harmless id db) :
    ∃ db', db.apply x = some db' ∧ ∀ s, Own id s db → Own id s db' := by
  rcases h with ⟨e, rfl⟩ | ⟨l, c, rfl, hl, hevent, horder⟩
  · exact ⟨_, rfl, fun _ hs => hs⟩
  · have hclash : db.txns.any (ProviderTransaction.clashes l c) = false := by
      rw [List.any_eq_false]
      intro t ht hclash
      unfold ProviderTransaction.clashes at hclash
      simp only [hevent, ne_eq, not_true_eq_false, decide_false, Bool.false_and, Bool.or_false,
        Bool.and_eq_true, decide_eq_true_eq] at hclash
      obtain ⟨hkey, ⟨hchanged, hsome⟩, hsame⟩ := hclash
      rcases horder with horder | horder
      · exact hchanged horder
      · obtain ⟨s, hs⟩ := Option.ne_none_iff_exists'.mp hsome
        exact hkey ((horder s hs t ht (hsame.trans hs)).trans hl.symm)
    refine ⟨_, by simp only [DB.apply, hclash]; rfl, fun s hs t ht hts => ?_⟩
    obtain ⟨t₀, ht₀, rfl⟩ := List.mem_map.mp ht
    dsimp only at hts ⊢
    split at hts
    · next hid =>
      rw [if_pos hid]
      exact (by simpa using hid : t₀.authorization_id = l.authorization_id).trans hl
    · next hid =>
      rw [if_neg hid]
      exact hs t₀ ht₀ hts

theorem applyAll_harmless {ws : List Write} : ∀ (db : DB), (∀ x ∈ ws, x.Harmless id db) →
    ∃ db', db.applyAll ws = .ok db' := by
  induction ws with
  | nil => exact fun db _ => ⟨db, rfl⟩
  | cons x ws ih =>
    intro db h
    obtain ⟨mid, hmid, hown⟩ := (h x List.mem_cons_self).apply
    obtain ⟨db', hrest⟩ := ih mid fun y hy => by
      rcases h y (List.mem_cons_of_mem _ hy) with he | ⟨l, c, hx, hl, hevent, horder⟩
      · exact .inl he
      · exact .inr ⟨l, c, hx, hl, hevent, horder.imp (fun ho => ho) fun ho s hs => hown s (ho s hs)⟩
    exact ⟨db', by rw [DB.applyAll, hmid]; exact hrest⟩

/-- A commit of harmless writes goes through. -/
theorem commit_harmless {α : Type} {ws : Session} {k : Unit → Handler α} {state : TxnState}
    {Q : World → List (Call × Option Answer) → Option α → Prop} (h : ∀ x ∈ ws, x.Harmless id w.db)
    (hstate : ws.onState id (w.db.stateOf id) = some state)
    (hk : ∀ w', w'.db.stateOf id = some state → (k ()).Wp (World.exec i) Q calls w') :
    (Handler.commit ws >>= k).Wp (World.exec i) Q calls w := by
  refine wp_commit (fun x hx => ?_) fun db' hdb' => ?_
  · obtain ⟨db', hdb'⟩ := applyAll_harmless w.db h
    exact absurd (hx.symm.trans hdb') (by simp)
  · exact hk _ ((applyAll_stateOf hdb').trans hstate)

/-! ## A row in hand -/

/-- The row as its session knows it: with the pending writes done it would be in the
database as it was loaded or last flushed, and neither they nor its own `UPDATE` can
clash. -/
structure InHand (id : String) (db : DB) (s : Session) (r : Orm) : Prop where
  state : s.onState id (db.stateOf id) = some r.loaded.state
  harmless : ∀ x ∈ s ++ [r.write], x.Harmless id db
  key : r.loaded.authorization_id = id

theorem inHand_fresh {db : DB} {t : ProviderTransaction}
    (h : db.txns.find? (fun t => t.authorization_id == id) = some t) :
    InHand id db [] (Orm.fresh t) := by
  have hid : t.authorization_id = id := by simpa using List.find?_some h
  refine ⟨?_, fun x hx => ?_, hid⟩
  · show db.stateOf id = _
    unfold DB.stateOf
    rw [h]
    rfl
  · obtain rfl := List.mem_singleton.mp hx
    exact .inr ⟨_, _, rfl, hid, rfl, .inl rfl⟩

/-- Assigning columns that no constraint is on. -/
theorem InHand.set {db : DB} {s : Session} {r : Orm} (h : InHand id db s r)
    {f : ProviderTransaction → ProviderTransaction}
    (horder : ∀ t, (f t).razorpay_order_id = t.razorpay_order_id)
    (hevent : ∀ t, (f t).webhook_event_id = t.webhook_event_id) : InHand id db s (r.set f) := by
  refine ⟨h.state, fun x hx => ?_, h.key⟩
  rcases List.mem_append.mp hx with hx | hx
  · exact h.harmless x (List.mem_append_left _ hx)
  · obtain rfl := List.mem_singleton.mp hx
    rcases h.harmless r.write (List.mem_append_right _ (List.mem_singleton_self _)) with
      ⟨e, he⟩ | ⟨l, c, hx, hl, hev, ho⟩
    · exact absurd he (by simp [Orm.write])
    · obtain ⟨rfl, rfl⟩ := Write.updateTxn.inj hx
      refine .inr ⟨_, _, rfl, hl, (hevent _).trans hev, ?_⟩
      show (f r.cur).razorpay_order_id = _ ∨ ∀ s, (f r.cur).razorpay_order_id = _ → _
      rw [horder]
      exact ho

theorem InHand.fail {db : DB} {s : Session} {r : Orm} (h : InHand id db s r) (text : String) :
    InHand id db s (r.fail text) :=
  h.set (f := fun t => { t with last_error := some text }) (fun _ => rfl) fun _ => rfl

theorem InHand.move {db : DB} {s : Session} {r r' : Orm} {to_state : TxnState}
    (h : InHand id db s r) (hmove : r.move to_state = .ok r') :
    to_state ∈ TRANSITION_TABLE r.cur.state ∧ r'.cur.state = to_state ∧ InHand id db s r' := by
  obtain ⟨hmem, rfl⟩ := Orm.move_ok hmove
  exact ⟨hmem, rfl, h.set (f := fun t => { t with state := to_state }) (fun _ => rfl) fun _ => rfl⟩

theorem InHand.audit {db : DB} {s : Session} {r : Orm} (h : InHand id db s r) (e : AuditEvent) :
    InHand id db (s ++ [.insertAudit e]) r where
  state := by
    unfold Session.onState
    rw [List.foldl_append]
    exact h.state
  harmless := by
    intro x hx
    rcases List.mem_append.mp hx with hx | hx
    · rcases List.mem_append.mp hx with hx | hx
      · exact h.harmless x (List.mem_append_left _ hx)
      · exact .inl ⟨e, List.mem_singleton.mp hx⟩
    · exact h.harmless x (List.mem_append_right _ hx)
  key := h.key

/-- The state with the row's own `UPDATE` done too. -/
theorem InHand.written {db : DB} {s : Session} {r : Orm} (h : InHand id db s r) :
    Session.onState id (s ++ [r.write]) (db.stateOf id) = some r.cur.state := by
  unfold Session.onState
  rw [List.foldl_append, List.foldl_cons, List.foldl_nil, ← Session.onState, h.state]
  unfold Orm.write Write.onState
  dsimp only
  rw [if_pos h.key, Option.map_some]
  split
  · next hsame => rw [hsame]
  · rfl

/-- A flush leaves the row in hand. -/
theorem InHand.flush {db : DB} {s : Session} {r : Orm} (h : InHand id db s r)
    (hkey : r.cur.authorization_id = id) : InHand id db (s ++ [r.write]) r.flushed where
  state := h.written
  harmless := by
    intro x hx
    rcases List.mem_append.mp hx with hx | hx
    · exact h.harmless x hx
    · obtain rfl := List.mem_singleton.mp hx
      exact .inr ⟨_, _, rfl, hkey, rfl, .inl rfl⟩
  key := hkey

theorem commit_inHand {α : Type} {s : Session} {r : Orm} {k : Unit → Handler α}
    {Q : World → List (Call × Option Answer) → Option α → Prop} (h : InHand id w.db s r)
    (hk : ∀ w', w'.db.stateOf id = some r.cur.state → (k ()).Wp (World.exec i) Q calls w') :
    (Handler.commit (s ++ [r.write]) >>= k).Wp (World.exec i) Q calls w :=
  commit_harmless h.harmless h.written hk

/-! ## What the provider did, and what was seen -/

/-- A reply the provider documents: an order of its own for exactly what was asked, a
payment reference, a capture object. -/
def Op.WellFormed (H : Host) (db : DB) : Op → Json → Prop
  | .create_payment authorization_id amount currency _, r =>
    (∀ auth : BoundedAuthorization, auth.authorization_id = authorization_id →
      auth.amount_minor_units = amount → auth.currency = currency →
      provider_order_matches H auth r = .ok true) ∧
    ∃ s, r.get "id" = .ok (.str s) ∧ Own authorization_id s db
  | .authorize_payment _ _ _ _ _ _, r =>
    ∃ ref id s, r.get "provider_payment_ref" = .ok ref ∧ r.get "id" = .ok id ∧
      ref.orElse id = .str s ∧ s ≠ ""
  | .capture_payment _ _ _ _, r => ∃ status, r.getD "status" (.str "") = .ok status
  | _, _ => True

/-- Every reply among the calls is well formed; errors are free. -/
def WellFormedReplies (H : Host) (db : DB) (calls : List (Call × Option Answer)) : Prop :=
  ∀ cl r, (cl, some (.ok r)) ∈ calls → cl.op.WellFormed H db r

/-- The capture statuses that say the payment did not happen. -/
def REFUSED_STATUSES : List String := ["failed", "declined", "cancelled", "canceled"]

/-- The provider itself reported that the payment failed or was declined. -/
def ReportedFailed (H : Host) (calls : List (Call × Option Answer)) : Prop :=
  ∃ cl r status, (cl, some (.ok r)) ∈ calls ∧
    (∃ ref amount currency key, cl.op = .capture_payment ref amount currency key) ∧
    r.getD "status" (.str "") = .ok status ∧ pyLower H.toText status ∈ REFUSED_STATUSES

/-- The transaction is recorded as failed. -/
def WrittenOff (s : Option TxnState) : Prop := s = some .FAILED ∨ s = some .DECLINED

instance (s : Option TxnState) : Decidable (WrittenOff s) := inferInstanceAs (Decidable (_ ∨ _))

/-- What was observed of the payment-creating call does not write the payment off: a
timeout, an error the handler passes on, no answer at all, or a reply on which the row can
become `PROVIDER_SUBMITTED`; any other error only where the row cannot fail. -/
def Survives (before : TxnState) (observed : Option Answer) : Prop :=
  ¬ WrittenOff (some before) ∧ (.FAILED ∈ TRANSITION_TABLE before →
    match observed with
    | none => True
    | some (.error (.timeout _)) => True
    | some (.error (.http _)) => True
    | some (.error _) => False
    | some (.ok _) => .PROVIDER_SUBMITTED ∈ TRANSITION_TABLE before)

/-- A consumption ends right: whether the transaction is written off is decided by what was
observed of its payment-creating call, and by the provider's own report. -/
def Judged (H : Host) (db : DB) (before : TxnState) (calls : List (Call × Option Answer))
    (after : Option TxnState) : Prop :=
  WellFormedReplies H db calls → ∀ cl observed, (cl, observed) ∈ calls → cl.op.submits ≠ none →
    (WrittenOff after ↔ ¬ Survives before observed ∨ ReportedFailed H calls)

/-- Nothing was submitted. -/
def Unsubmitted (calls : List (Call × Option Answer)) : Prop := ∀ ca ∈ calls, ca.1.op.submits = none

theorem Unsubmitted.judged {db : DB} {before : TxnState} {after : Option TxnState} (h : Unsubmitted calls) :
    Judged H db before calls after :=
  fun _ cl observed hmem hsub => absurd (h (cl, observed) hmem) hsub

/-- A part that submits nothing. -/
theorem Unsubmitted.wp {α : Type} {p : Handler α} {db : DB} {before : TxnState} (h : Unsubmitted calls)
    (hp : p.Calls fun cl => cl.op.submits = none) :
    p.Wp (World.exec i) (fun w' calls' _ => Judged H db before calls' (w'.db.stateOf id)) calls w := by
  refine Prog.wp_mono ?_ (Prog.wp_of_calls hp)
  rintro w' _ r ⟨more, rfl, hmore⟩
  refine Unsubmitted.judged fun ca hca => ?_
  rcases List.mem_append.mp hca with hca | hca
  · exact h ca hca
  · exact hmore ca hca

/-- One submission, with what came before and after it. -/
theorem judged_of {db : DB} {before : TxnState} {after : Option TxnState} {pre post : List (Call × Option Answer)}
    {cl : Call} {observed : Option Answer} (hpre : Unsubmitted pre) (hpost : Unsubmitted post)
    (h : WellFormedReplies H db (pre ++ (cl, observed) :: post) → (WrittenOff after ↔
      ¬ Survives before observed ∨ ReportedFailed H (pre ++ (cl, observed) :: post))) :
    Judged H db before (pre ++ (cl, observed) :: post) after := by
  intro hwf cl' observed' hmem hsub
  rcases List.mem_append.mp hmem with hmem | hmem
  · exact absurd (hpre _ hmem) hsub
  · rcases List.mem_cons.mp hmem with heq | hmem
    · obtain ⟨rfl, rfl⟩ := Prod.mk.inj heq
      exact h hwf
    · exact absurd (hpost _ hmem) hsub

/-! ## The error handlers -/

theorem moveOrPass_writtenOff (r : Orm) : WrittenOff (some (r.moveOrPass .FAILED).cur.state) ↔
    .FAILED ∈ TRANSITION_TABLE r.cur.state ∨ WrittenOff (some r.cur.state) := by
  show WrittenOff (some (transition_or_pass r.cur .FAILED).state) ↔ _
  unfold transition_or_pass transition_txn
  cases hs : r.cur.state <;> simp [TRANSITION_TABLE, WrittenOff, hs]

theorem moveOrPass_unknown (r : Orm) : WrittenOff (some (r.moveOrPass .PROVIDER_UNKNOWN).cur.state) ↔
    WrittenOff (some r.cur.state) := by
  show WrittenOff (some (transition_or_pass r.cur .PROVIDER_UNKNOWN).state) ↔ _
  unfold transition_or_pass transition_txn
  cases hs : r.cur.state <;> simp [TRANSITION_TABLE, WrittenOff, hs]

/-- A part that ends with no further call, the transaction written off exactly if `X`. -/
abbrev Ends {α : Type} (i : Nat) (id : String) (X : Prop) (p : Handler α)
    (calls : List (Call × Option Answer)) (w : World) : Prop :=
  p.Wp (World.exec i) (fun w' c _ => c = calls ∧ (WrittenOff (w'.db.stateOf id) ↔ X)) calls w

/-- Where an exception finds the row, and what has to come of it. -/
structure Failing (id : String) (before : TxnState) (w : World) (raised : Raised) (X : Prop) :
    Prop where
  state : w.db.stateOf id = some before
  row : match raised.row with
    | none => raised.pending = []
    | some r => InHand id w.db raised.pending r
  outcome : match raised.exc with
    | .http _ => WrittenOff (some before) ↔ X
    | .timeout _ => WrittenOff (some ((raised.row.map fun r => r.cur.state).getD before)) ↔ X
    | _ => .FAILED ∈ TRANSITION_TABLE ((raised.row.map fun r => r.cur.state).getD before) ∨
      WrittenOff (some ((raised.row.map fun r => r.cur.state).getD before)) ↔ X

theorem InHand.moveOrPass {db : DB} {s : Session} {r : Orm} (h : InHand id db s r)
    (to_state : TxnState) : InHand id db s (r.moveOrPass to_state) := by
  refine h.set (f := (transition_or_pass · to_state)) ?_ ?_ <;> intro t <;>
    rcases transition_or_pass_cases t to_state with hc | ⟨-, hc⟩ <;> rw [hc]

/-- The body of an `except` block that records the exception. -/
theorem Failing.record {α : Type} {before : TxnState} {raised : Raised} {X : Prop}
    {to_state : TxnState} {text : String} {k : Unit → Handler α}
    {Q : World → List (Call × Option Answer) → Option α → Prop} (h : Failing id before w raised X)
    (hk : ∀ (w' : World) (r : Orm), r.cur.state = (raised.row.map fun r => r.cur.state).getD before →
      w'.db.stateOf id = some (r.moveOrPass to_state).cur.state → (k ()).Wp (World.exec i) Q calls w') :
    (raised.access id >>= fun row =>
      Handler.commit (raised.pending ++ [((row.moveOrPass to_state).fail text).write]) >>= k).Wp
        (World.exec i) Q calls w := by
  have hrow := h.row
  have hset : ∀ {s : Session} {r : Orm}, InHand id w.db s r →
      InHand id w.db s ((r.moveOrPass to_state).fail text) :=
    fun hr => (hr.moveOrPass to_state).fail text
  unfold Raised.access
  cases hr : raised.row with
  | none =>
    rw [hr] at hrow hk
    rw [show raised.pending = [] from hrow]
    have hstate := h.state
    unfold DB.stateOf at hstate
    obtain ⟨t, ht, hts⟩ := Option.map_eq_some_iff.mp hstate
    refine Prog.wp_bind (wp_query ?_)
    rw [ht]
    exact commit_inHand (hset (inHand_fresh ht)) fun w' hw' => hk w' (Orm.fresh t) hts hw'
  | some r =>
    rw [hr] at hrow hk
    exact commit_inHand (hset hrow) fun w' hw' => hk w' r rfl hw'

theorem moveOrPass_failed_iff {r : Orm} {s : TxnState} (h : r.cur.state = s) :
    WrittenOff (some (r.moveOrPass .FAILED).cur.state) ↔
      .FAILED ∈ TRANSITION_TABLE s ∨ WrittenOff (some s) := by
  rw [moveOrPass_writtenOff, h]

theorem moveOrPass_unknown_iff {r : Orm} {s : TxnState} (h : r.cur.state = s) :
    WrittenOff (some (r.moveOrPass .PROVIDER_UNKNOWN).cur.state) ↔ WrittenOff (some s) := by
  rw [moveOrPass_unknown, h]

/-- The `except` blocks of `consume_authorization`. -/
theorem handle_raised_ends {x : Execution} (hx : x.auth.authorization_id = id) {before : TxnState}
    {raised : Raised} {X : Prop} (h : Failing id before w raised X) :
    Ends i id X (handle_raised H x raised) calls w := by
  have hout := h.outcome
  unfold handle_raised
  rw [hx]
  dsimp only
  split
  · next e he =>
    rw [he] at hout
    exact ⟨rfl, by rw [h.state]; exact hout⟩
  · next text he =>
    rw [he] at hout
    rw [Prog.bind_assoc]
    exact h.record fun w' r hr hw' => ⟨rfl, by rw [hw', moveOrPass_unknown_iff hr]; exact hout⟩
  · next text he =>
    rw [he] at hout
    rw [Prog.bind_assoc]
    exact h.record fun w' r hr hw' => ⟨rfl, by rw [hw', moveOrPass_failed_iff hr]; exact hout⟩
  · next text he =>
    rw [he] at hout
    rw [Prog.bind_assoc]
    refine h.record fun w' r hr hw' => ?_
    have hend : WrittenOff (w'.db.stateOf id) ↔ X := by
      rw [hw', moveOrPass_failed_iff hr]
      exact hout
    exact wp_loadTxn ⟨rfl, hend⟩ fun _ _ => ⟨rfl, hend⟩
  · next e hhttp htimeout hconfig hagentic =>
    rw [Prog.bind_assoc]
    refine h.record fun w' r hr hw' => ⟨rfl, ?_⟩
    rw [hw', moveOrPass_failed_iff hr]
    split at hout
    · next e' he => exact absurd he (hhttp e')
    · next text he => exact absurd he (htimeout text)
    · exact hout

/-! ## The order-based path -/

/-- A settlement path ends right, or raises where its `except` blocks will end right. -/
def EndsRight (H : Host) (db : DB) (id : String) (before : TxnState) (w : World)
    (calls : List (Call × Option Answer)) : Option (Except Raised Reply) → Prop
  | some (.error raised) => (∀ s, Judged H db before calls s) ∨
      ∃ X, Failing id before w raised X ∧ ∀ s, (WrittenOff s ↔ X) → Judged H db before calls s
  | _ => Judged H db before calls (w.db.stateOf id)

/-- The part runs alone to such an end. -/
abbrev Right {α : Type} (Q : World → List (Call × Option Answer) → Option α → Prop) (i : Nat)
    (p : Handler α) (calls : List (Call × Option Answer)) (w : World) : Prop :=
  p.Wp (World.exec i) Q calls w

section
variable {db : DB} {before : TxnState} {x : Execution}

theorem EndsRight.of_all {r : Option (Except Raised Reply)} (h : ∀ s, Judged H db before calls s) :
    EndsRight H db id before w calls r := by
  match r with
  | none => exact h _
  | some (.ok _) => exact h _
  | some (.error _) => exact .inl h

/-- A reply outside the documentation says nothing. -/
theorem ill_formed_wp {α : Type} {Q : World → List (Call × Option Answer) → Option α → Prop}
    (h : ¬ WellFormedReplies H db calls) (hQ : ∀ w' c r, (∀ s, Judged H db before c s) → Q w' c r)
    (p : Handler α) : p.Wp (World.exec i) Q calls w := by
  have hany : ∀ {β : Type} (p : Handler β), p.Calls fun _ => True := by
    intro β p
    induction p with
    | ret a => trivial
    | halt => trivial
    | stmt s k ih => exact ih
    | call c k ih => exact ⟨trivial, ih⟩
  refine Prog.wp_mono ?_ (Prog.wp_of_calls (hany p))
  rintro w' _ r ⟨more, rfl, -⟩
  refine hQ w' _ r fun s hwf => absurd ?_ h
  exact fun cl r hmem => hwf cl r (List.mem_append_left _ hmem)

/-- An answer that is no report of a failed payment. -/
theorem not_reported (h : ∀ cl r, (cl, some (.ok r)) ∈ calls →
    ∀ ref amount currency key, cl.op ≠ .capture_payment ref amount currency key) :
    ¬ ReportedFailed H calls := by
  rintro ⟨cl, r, status, hmem, ⟨ref, amount, currency, key, hop⟩, -⟩
  exact h cl r hmem ref amount currency key hop

theorem get_contains {r : Json} {k s : String} (h : r.get k = .ok (.str s)) :
    r.contains k = .ok true := by
  cases r with
  | dict kvs =>
    have hlookup : (kvs.lookup k).getD .null = .str s := Except.ok.inj h
    have hmem : kvs.lookup k = some (.str s) := by
      cases hl : kvs.lookup k with
      | none => rw [hl] at hlookup; exact absurd hlookup (by simp)
      | some v => rw [hl] at hlookup; exact congrArg some hlookup
    have : kvs.any (fun kv => kv.1 == k) = true :=
      List.any_eq_true.mpr ⟨_, JsonText.mem_of_lookup hmem, by simp⟩
    exact congrArg Except.ok this
  | _ => exact absurd h (by simp [Json.get, Json.getD])

/-- What a refused transition leaves to the `except` blocks. -/
theorem failing_illegal {s : Session} {r : Orm} {to_state : TxnState} {e : Exc}
    (hstate : w.db.stateOf id = some before) (hr : InHand id w.db s r) (hcur : r.cur.state = before)
    (he : r.move to_state = .error e) :
    Failing id before w ⟨e, some r, s⟩ (.FAILED ∈ TRANSITION_TABLE before ∨ WrittenOff (some before)) := by
  have hill : e = illegalTransition r.cur to_state := by
    unfold Orm.move at he
    split at he
    · exact absurd he (by simp)
    · next e' htrans =>
      obtain rfl := Except.error.inj he
      unfold transition_txn at htrans
      split at htrans
      · exact absurd htrans (by simp)
      · exact (Except.error.inj htrans).symm
  refine ⟨hstate, hr, ?_⟩
  subst hill
  show _ ∈ TRANSITION_TABLE r.cur.state ∨ WrittenOff (some r.cur.state) ↔ _
  rw [hcur]

theorem move_error {r : Orm} {to_state : TxnState} {e : Exc} (he : r.move to_state = .error e) :
    to_state ∉ TRANSITION_TABLE r.cur.state := by
  intro hmem
  unfold Orm.move transition_txn at he
  rw [if_pos hmem] at he
  exact absurd he (by simp)

/-- The one observation of the order-based path. -/
theorem judged_order {cl : Call} {observed : Option Answer} {after : Option TxnState}
    (hcl : ∀ ref amount currency key, cl.op ≠ .capture_payment ref amount currency key)
    (h : WellFormedReplies H db [(cl, observed)] → (WrittenOff after ↔ ¬ Survives before observed)) :
    Judged H db before [(cl, observed)] after := by
  have hnil : Unsubmitted [] := fun _ h => absurd h List.not_mem_nil
  refine judged_of hnil hnil fun hwf => ?_
  have hno : ¬ ReportedFailed H ([] ++ (cl, observed) :: []) := by
    refine not_reported fun cl' r hmem => ?_
    obtain ⟨rfl, -⟩ := Prod.mk.inj (List.mem_singleton.mp hmem)
    exact hcl
  rw [h hwf]
  exact ⟨.inl, fun hor => hor.resolve_right hno⟩

/-- Reading an expired row back, its state known. -/
theorem wp_loadTxn_known {α : Type} {k : Orm → Handler α}
    {Q : World → List (Call × Option Answer) → Option α → Prop}
    (hstate : w.db.stateOf id = some before)
    (hk : ∀ t, w.db.txns.find? (fun t => t.authorization_id == id) = some t → t.state = before →
      (k (Orm.fresh t)).Wp (World.exec i) Q calls w) :
    (loadTxn id >>= k).Wp (World.exec i) Q calls w := by
  unfold DB.stateOf at hstate
  obtain ⟨t, ht, hts⟩ := Option.map_eq_some_iff.mp hstate
  refine Prog.wp_bind (wp_query ?_)
  rw [ht]
  exact hk t ht hts

/-- Pending writes that end with audit events, committed. -/
theorem commit_flushed {α : Type} {s : Session} {r : Orm} {k : Unit → Handler α}
    {Q : World → List (Call × Option Answer) → Option α → Prop} (h : InHand id w.db s r)
    (hk : ∀ w', w'.db.stateOf id = some r.loaded.state → (k ()).Wp (World.exec i) Q calls w') :
    (Handler.commit s >>= k).Wp (World.exec i) Q calls w :=
  commit_harmless (fun y hy => h.harmless y (List.mem_append_left _ hy)) h.state hk

theorem submit_order_right {provider : RazorpayAdapter} {order : Json} {s : String} {cl : Call}
    (hx : x.auth.authorization_id = id) (hstate : w.db.stateOf id = some before)
    (hid : order.get "id" = .ok (.str s)) (hown : Own id s w.db)
    (hcl : ∀ ref amount currency key, cl.op ≠ .capture_payment ref amount currency key) :
    Right (EndsRight H db id before) i (submit_order H x provider order)
      [(cl, some (.ok order))] w := by
  unfold submit_order
  rw [hid, hx]
  dsimp only [bindText]
  refine wp_loadTxn_known hstate fun t ht hts => ?_
  have hrow : InHand id w.db [] (((Orm.fresh t).set fun t => { t with razorpay_order_id := some s }).set
      (provider.provenance H).stamp) := by
    refine ⟨(inHand_fresh ht).state, fun y hy => ?_, (inHand_fresh ht).key⟩
    obtain rfl := List.mem_singleton.mp hy
    refine .inr ⟨_, _, rfl, (inHand_fresh ht).key, rfl, .inr fun s' hs' => ?_⟩
    obtain rfl : s = s' := Option.some.inj hs'
    exact hown
  split
  · next e he =>
    refine .inr ⟨_, failing_illegal hstate hrow hts he, fun after hafter => ?_⟩
    refine judged_order hcl fun _ => ?_
    rw [hafter, Survives]
    have hno : .PROVIDER_SUBMITTED ∉ TRANSITION_TABLE before := hts ▸ move_error he
    tauto
  · next row hmove =>
    obtain ⟨hedge, hsubmitted, hhand⟩ := hrow.move hmove
    have hkey : row.cur.authorization_id = id := by
      obtain ⟨-, rfl⟩ := Orm.move_ok hmove
      exact (inHand_fresh ht).key
    have hedge : .PROVIDER_SUBMITTED ∈ TRANSITION_TABLE before := hts ▸ hedge
    refine wp_record_audit (wp_record_audit (commit_flushed
      (((hhand.flush hkey).audit _).audit _) fun w' hw' => ?_))
    have hw' : w'.db.stateOf id = some .PROVIDER_SUBMITTED := hsubmitted ▸ hw'
    have hright : Judged H db before [(cl, some (.ok order))] (w'.db.stateOf id) := by
      refine judged_order hcl fun _ => ?_
      rw [hw', Survives]
      have hbefore : ¬ WrittenOff (some before) := by
        rintro (hb | hb) <;> obtain rfl := Option.some.inj hb <;> exact absurd hedge (by decide)
      have hafter : ¬ WrittenOff (some TxnState.PROVIDER_SUBMITTED) := by decide
      tauto
    exact wp_loadTxn hright fun _ _ => hright

theorem survives_none : WrittenOff (some before) ↔ ¬ Survives before none := by
  simp [Survives]

/-- An exception right from a provider call. -/
theorem failing_answer (hstate : w.db.stateOf id = some before) (e : Exc) :
    Failing id before w { exc := e } (¬ Survives before (some (.error e))) := by
  refine ⟨hstate, rfl, ?_⟩
  unfold Survives
  by_cases hbefore : WrittenOff (some before) <;> cases e <;> simp [hbefore]

theorem create_order_right (hx : x.auth.authorization_id = id)
    (hstate : w.db.stateOf id = some before) (hown : ∀ s, Own id s db → Own id s w.db) :
    Right (EndsRight H db id before) i (create_order H x) [] w := by
  have hnothing : ∀ s, Judged H db before [] s := fun s =>
    Unsubmitted.judged fun _ h => absurd h List.not_mem_nil
  unfold create_order
  refine wp_query ?_
  split
  · exact EndsRight.of_all hnothing
  · next provider hprovider =>
    unfold RazorpayAdapter.create_payment RazorpayAdapter.request
    split
    · exact EndsRight.of_all hnothing
    · split
      · exact EndsRight.of_all hnothing
      · refine ⟨?_, fun answer => ?_⟩
        · -- no answer: nothing was committed since
          refine judged_order (fun _ _ _ _ => by simp) fun _ => ?_
          rw [hstate]
          exact survives_none
        · cases answer with
          | error e =>
            refine .inr ⟨_, failing_answer hstate e, fun after hafter => ?_⟩
            exact judged_order (fun _ _ _ _ => by simp) fun _ => hafter
          | ok order =>
            by_cases hwf : WellFormedReplies H db [(⟨.razorpay provider.org_id (provider.key_id H),
                .create_payment x.auth.authorization_id x.auth.amount_minor_units x.auth.currency
                  [("paari_transaction_id", x.auth.transaction_id), ("paari_agent_id", x.agent_id)]⟩,
                some (.ok order))]
            · obtain ⟨hmatch, s, hid, hs⟩ := hwf _ _ (List.mem_singleton_self _)
              have hmatch := hmatch x.auth rfl rfl rfl
              dsimp only [Bind.bind, Prog.bind, Except.bind]
              rw [get_contains hid]
              dsimp only [pure, Prog.bind]
              rw [hmatch]
              exact submit_order_right hx hstate hid (hown s (hx ▸ hs)) fun _ _ _ _ => by simp
            · exact ill_formed_wp hwf (fun _ _ _ => EndsRight.of_all) _

/-! ## The agentic path -/

theorem move_legal {s : Session} {r : Orm} (to_state : TxnState) (h : InHand id w.db s r)
    (hedge : to_state ∈ TRANSITION_TABLE r.cur.state) :
    ∃ r', r.move to_state = .ok r' ∧ r'.cur.state = to_state ∧ InHand id w.db s r' := by
  have hmove : r.move to_state = .ok ⟨r.loaded, { r.cur with state := to_state }⟩ := by
    unfold Orm.move transition_txn
    rw [if_pos hedge]
  obtain ⟨-, hstate, hhand⟩ := h.move hmove
  exact ⟨_, hmove, hstate, hhand⟩

/-- A submission that survives, and nobody reports failed: the row must not be written off. -/
theorem judged_alive {pre post : List (Call × Option Answer)} {cl : Call} {observed : Option Answer}
    {after : Option TxnState} (hpre : Unsubmitted pre) (hpost : Unsubmitted post)
    (hsurvives : Survives before observed)
    (hno : ¬ ReportedFailed H (pre ++ (cl, observed) :: post)) (hafter : ¬ WrittenOff after) :
    Judged H db before (pre ++ (cl, observed) :: post) after :=
  judged_of hpre hpost fun _ =>
    ⟨fun h => absurd h hafter, fun h => h.elim (fun hn => absurd hsurvives hn) fun hr => absurd hr hno⟩

section
variable {validated : Call × Option Answer} {paying capturing : Call} {paid : Json} {ref : Json}
  {s : Session} {row : Orm}

/-- The calls up to the capture. -/
abbrev upTo (validated : Call × Option Answer) (paying : Call) (paid : Json)
    (post : List (Call × Option Answer)) : List (Call × Option Answer) :=
  [validated] ++ (paying, some (.ok paid)) :: post

/-- What the first two calls of the agentic path are, and what the second one survives. -/
structure Paying (before : TxnState) (validated : Call × Option Answer) (paying capturing : Call)
    (paid : Json) : Prop where
  validated : ∃ ref, validated.1.op = .validate_mandate ref
  paying : ∃ id ref amount currency merchant key,
    paying.op = .authorize_payment id ref amount currency merchant key
  capturing : ∃ ref amount currency key, capturing.op = .capture_payment ref amount currency key
  survives : Survives before (some (.ok paid))

theorem Paying.pre (h : Paying before validated paying capturing paid) : Unsubmitted [validated] := by
  intro ca hca
  obtain ⟨ref, hop⟩ := h.validated
  rw [List.mem_singleton.mp hca, hop]
  rfl

theorem Paying.captured (h : Paying before validated paying capturing paid) (a : Option Answer) :
    Unsubmitted [(capturing, a)] := by
  intro ca hca
  obtain ⟨ref, amount, currency, key, hop⟩ := h.capturing
  rw [List.mem_singleton.mp hca]
  dsimp only
  rw [hop]
  rfl

/-- The provider reported a failure exactly where its capture reply says so. -/
theorem Paying.reported (h : Paying before validated paying capturing paid) {reply status : Json}
    (hstatus : reply.getD "status" (.str "") = .ok status) {post : List (Call × Option Answer)}
    (hpost : ∀ ca ∈ post, ∃ ref, ca.1.op = .agentic_get_payment ref) :
    ReportedFailed H (upTo validated paying paid ((capturing, some (.ok reply)) :: post)) ↔
      pyLower H.toText status ∈ REFUSED_STATUSES := by
  constructor
  · rintro ⟨cl, r, status', hmem, ⟨ref', amount, currency, key, hop⟩, hget, hin⟩
    rcases List.mem_append.mp hmem with hmem | hmem
    · obtain ⟨ref, hv⟩ := h.validated
      rw [← List.mem_singleton.mp hmem, hop] at hv
      exact absurd hv (by simp)
    · rcases List.mem_cons.mp hmem with heq | hmem
      · obtain ⟨rfl, -⟩ := Prod.mk.inj heq
        obtain ⟨_, _, _, _, _, _, hp⟩ := h.paying
        exact absurd (hop.symm.trans hp) (by simp)
      · rcases List.mem_cons.mp hmem with heq | hmem
        · obtain ⟨rfl, hr⟩ := Prod.mk.inj heq
          obtain rfl := Except.ok.inj (Option.some.inj hr)
          obtain rfl := Except.ok.inj (hget.symm.trans hstatus)
          exact hin
        · obtain ⟨ref, hg⟩ := hpost _ hmem
          exact absurd (hop.symm.trans hg) (by simp)
  · intro hin
    exact ⟨capturing, reply, status, by simp [upTo], h.capturing, hstatus, hin⟩

theorem answerConsumed_right (hrow : InHand id w.db s row) (hx : x.auth.authorization_id = id)
    (hright : Judged H db before calls (some row.cur.state)) :
    Right (EndsRight H db id before) i
      (answerConsumed x s row ref >>= fun reply => pure (.ok reply)) calls w := by
  refine Prog.wp_bind ?_
  refine commit_inHand hrow fun w' hw' => ?_
  rw [hx]
  refine wp_loadTxn_known hw' fun t _ _ => ?_
  show Judged H db before calls (w'.db.stateOf id)
  rw [hw']
  exact hright

theorem confirm_agentic_right (h : Paying before validated paying capturing paid)
    (hx : x.auth.authorization_id = id) (hstate : w.db.stateOf id = some before)
    (hrow : InHand id w.db s row) (hsubmitted : row.cur.state = .PROVIDER_SUBMITTED)
    {reply status : Json} (hstatus : reply.getD "status" (.str "") = .ok status)
    (hno : pyLower H.toText status ∉ REFUSED_STATUSES) :
    Right (EndsRight H db id before) i (confirm_agentic H x s row ref)
      (upTo validated paying paid [(capturing, some (.ok reply))]) w := by
  obtain ⟨row₁, hmove₁, hstate₁, hrow₁⟩ := move_legal .PROVIDER_AUTHORIZED hrow
    (by rw [hsubmitted]; decide)
  obtain ⟨row₂, hmove₂, hstate₂, hrow₂⟩ := move_legal .CAPTURED hrow₁
    (by rw [hstate₁]; decide)
  have hbefore : ¬ WrittenOff (some before) := h.survives.1
  -- whatever the read-back says, the row is not written off any more
  have halive : ∀ (a : Option Answer) {after : Option TxnState}, ¬ WrittenOff after →
      Judged H db before (upTo validated paying paid [(capturing, some (.ok reply))] ++
        [(⟨.agentic x.auth.org_id, .agentic_get_payment ref⟩, a)]) after := by
    intro a after hafter
    rw [upTo, List.append_assoc, List.cons_append, List.cons_append, List.nil_append]
    refine judged_alive h.pre ?_ h.survives ?_ hafter
    · intro ca hca
      rcases List.mem_cons.mp hca with rfl | hca
      · exact h.captured _ _ (List.mem_singleton_self _)
      · rw [List.mem_singleton.mp hca]
        rfl
    · refine (not_congr (h.reported hstatus fun ca hca => ?_)).mpr hno
      rw [List.mem_singleton.mp hca]
      exact ⟨_, rfl⟩
  have hraise : ∀ (a : Option Answer) (e : Exc), EndsRight H db id before w
      (upTo validated paying paid [(capturing, some (.ok reply))] ++
        [(⟨.agentic x.auth.org_id, .agentic_get_payment ref⟩, a)])
      (some (.error ⟨e, some row₂, s⟩)) := by
    intro a e
    refine .inr ⟨False, ⟨hstate, hrow₂, ?_⟩, fun after hafter => halive a hafter.mp⟩
    cases e with
    | http x => exact iff_false_intro hbefore
    | _ =>
      dsimp only [Option.map_some, Option.getD_some]
      rw [hstate₂]
      decide
  unfold confirm_agentic
  rw [hmove₁]
  dsimp only [Except.bind]
  rw [hmove₂]
  dsimp only
  refine ⟨?_, fun answer => ?_⟩
  · show Judged H db before _ (w.db.stateOf id)
    rw [hstate]
    exact halive none hbefore
  · cases answer with
    | error e => exact hraise _ e
    | ok data =>
      simp only [Prog.bind]
      split
      · exact hraise _ _
      · refine answerConsumed_right (hrow₂.fail _) hx (halive _ ?_)
        show ¬ WrittenOff (some row₂.cur.state)
        rw [hstate₂]
        decide
      · obtain ⟨row₃, hmove₃, hstate₃, hrow₃⟩ := move_legal .PAID hrow₂
          (by rw [hstate₂]; decide)
        rw [hmove₃]
        refine wp_record_audit (answerConsumed_right (hrow₃.audit _) hx (halive _ ?_))
        rw [hstate₃]
        decide

theorem settle_capture_right (h : Paying before validated paying capturing paid)
    (hx : x.auth.authorization_id = id) (hstate : w.db.stateOf id = some before)
    (hrow : InHand id w.db s row) (hsubmitted : row.cur.state = .PROVIDER_SUBMITTED)
    {reply status : Json} (hstatus : reply.getD "status" (.str "") = .ok status) :
    Right (EndsRight H db id before) i (settle_capture H x s row ref reply)
      (upTo validated paying paid [(capturing, some (.ok reply))]) w := by
  have hreported : ReportedFailed H (upTo validated paying paid [(capturing, some (.ok reply))]) ↔
      pyLower H.toText status ∈ REFUSED_STATUSES :=
    h.reported hstatus fun _ hca => absurd hca List.not_mem_nil
  -- the row moves to a state that is written off exactly where the reply reports a failure
  have hfinish : ∀ (to_state : TxnState) (text : String),
      to_state ∈ TRANSITION_TABLE .PROVIDER_SUBMITTED →
      (WrittenOff (some to_state) ↔ pyLower H.toText status ∈ REFUSED_STATUSES) →
      Right (EndsRight H db id before) i (finish_capture x s row ref to_state text)
        (upTo validated paying paid [(capturing, some (.ok reply))]) w := by
    intro to_state text hedge hoff
    obtain ⟨row', hmove, hstate', hrow'⟩ := move_legal to_state hrow (hsubmitted ▸ hedge)
    unfold finish_capture
    rw [hmove]
    refine answerConsumed_right (hrow'.fail _) hx (judged_of h.pre (h.captured _) fun _ => ?_)
    show WrittenOff (some row'.cur.state) ↔ _
    rw [hstate', hoff, ← hreported]
    exact ⟨.inr, fun hor => hor.resolve_left fun hn => hn h.survives⟩
  unfold settle_capture
  rw [hstatus]
  dsimp only
  split
  · next hcaptured =>
    refine confirm_agentic_right h hx hstate hrow hsubmitted hstatus fun hin => ?_
    rcases List.mem_cons.mp hcaptured with hs | hs
    · rw [hs] at hin
      exact absurd hin (by decide)
    · rw [List.mem_singleton.mp hs] at hin
      exact absurd hin (by decide)
  · split
    · next hpending =>
      refine hfinish _ _ (by decide) ⟨fun hoff => absurd hoff (by decide), fun hin => ?_⟩
      exact absurd hin (by
        simp only [List.mem_cons, List.not_mem_nil, or_false] at hpending
        rcases hpending with hs | hs | hs | hs <;> rw [hs] <;> decide)
    · split
      · next hrefused =>
        refine hfinish _ _ (by split <;> decide) ⟨fun _ => hrefused, fun _ => ?_⟩
        split
        · exact .inl rfl
        · exact .inr rfl
      · next hrefused =>
        exact hfinish _ _ (by decide) ⟨fun hoff => absurd hoff (by decide), fun hin => absurd hin hrefused⟩

/-- No reply to a capture, no report. -/
theorem unreported {post : List (Call × Option Answer)}
    (hvalidated : ∃ ref, validated.1.op = .validate_mandate ref)
    (hpaying : ∃ id ref amount currency merchant key,
      paying.op = .authorize_payment id ref amount currency merchant key)
    (hpost : ∀ cl r, (cl, some (.ok r)) ∉ post) :
    ¬ ReportedFailed H (upTo validated paying paid post) := by
  refine not_reported fun cl r hmem _ _ _ _ hc => ?_
  rcases List.mem_append.mp hmem with hmem | hmem
  · obtain ⟨ref, hop⟩ := hvalidated
    rw [← List.mem_singleton.mp hmem] at hop
    exact absurd (hc.symm.trans hop) (by simp)
  · rcases List.mem_cons.mp hmem with heq | hmem
    · obtain ⟨rfl, -⟩ := Prod.mk.inj heq
      obtain ⟨_, _, _, _, _, _, hp⟩ := hpaying
      exact absurd (hc.symm.trans hp) (by simp)
    · exact hpost _ _ hmem

/-- The capture call and what follows it. -/
theorem capture_right {recipient : Recipient} {op : Op} (h : Paying before validated paying ⟨recipient, op⟩ paid)
    (hx : x.auth.authorization_id = id) (hstate : w.db.stateOf id = some before)
    (hrow : InHand id w.db s row) (hsubmitted : row.cur.state = .PROVIDER_SUBMITTED) :
    Right (EndsRight H db id before) i
      (Handler.send recipient op >>= fun capture =>
        match capture with
        | .error exc => do
          let row := (row.moveOrPass .PROVIDER_UNKNOWN).fail
            (slice 2000 ("Agentic capture outcome unknown: " ++ exc.text H.toText))
          let reply ← answerConsumed x s row ref
          return .ok reply
        | .ok capture_result => settle_capture H x s row ref capture_result)
      (upTo validated paying paid []) w := by
  have hcalls : ∀ a, upTo validated paying paid [] ++ [((⟨recipient, op⟩ : Call), a)] =
      upTo validated paying paid [(⟨recipient, op⟩, a)] := fun a => by simp [upTo]
  have hsilent : ∀ {a : Option Answer} {after : Option TxnState}, (∀ r, a ≠ some (.ok r)) →
      ¬ WrittenOff after → Judged H db before (upTo validated paying paid [(⟨recipient, op⟩, a)]) after := by
    intro a after ha hafter
    refine judged_alive h.pre (h.captured a) h.survives ?_ hafter
    refine unreported h.validated h.paying fun cl r hmem => ?_
    obtain ⟨-, hr⟩ := Prod.mk.inj (List.mem_singleton.mp hmem)
    exact ha r hr.symm
  refine ⟨?_, fun answer => ?_⟩
  · -- no answer to the capture: nothing was committed
    show Judged H db before _ (w.db.stateOf id)
    rw [hcalls, hstate]
    exact hsilent (fun r => by simp) h.survives.1
  · rw [hcalls]
    cases answer with
    | error exc =>
      have hunknown : ((row.moveOrPass .PROVIDER_UNKNOWN).fail
          (slice 2000 ("Agentic capture outcome unknown: " ++ exc.text H.toText))).cur.state =
          .PROVIDER_UNKNOWN := by
        show (transition_or_pass row.cur .PROVIDER_UNKNOWN).state = _
        unfold transition_or_pass transition_txn
        rw [hsubmitted]
        rfl
      refine answerConsumed_right ((hrow.moveOrPass _).fail _) hx ?_
      rw [hunknown]
      exact hsilent (fun r => by simp) (by decide)
    | ok reply =>
      by_cases hwf : WellFormedReplies H db (upTo validated paying paid [(⟨recipient, op⟩, some (.ok reply))])
      · have hcapture := hwf ⟨recipient, op⟩ reply (by simp [upTo])
        obtain ⟨_, _, _, _, hop⟩ := h.capturing
        obtain rfl : op = _ := hop
        obtain ⟨status, hstatus⟩ := hcapture
        exact settle_capture_right h hx hstate hrow hsubmitted hstatus
      · exact ill_formed_wp hwf (fun _ _ _ => EndsRight.of_all) _

theorem capture_agentic_right {adapter : AgenticAdapter} {payment_id : String}
    (hvalidated : ∃ ref, validated.1.op = .validate_mandate ref)
    (hpaying : ∃ id ref amount currency merchant key,
      paying.op = .authorize_payment id ref amount currency merchant key)
    (hx : x.auth.authorization_id = id) (hstate : w.db.stateOf id = some before) :
    Right (EndsRight H db id before) i (capture_agentic H x adapter (.str payment_id))
      (upTo validated paying paid []) w := by
  subst hx
  unfold capture_agentic
  refine wp_loadTxn_known hstate fun t ht hts => ?_
  dsimp only [bindText]
  have hpre : Unsubmitted [validated] := by
    obtain ⟨ref, hop⟩ := hvalidated
    intro ca hca
    rw [List.mem_singleton.mp hca, hop]
    rfl
  split
  · next e he =>
    -- the row cannot be submitted any more: an `IllegalTransitionError`
    have hno : .PROVIDER_SUBMITTED ∉ TRANSITION_TABLE before := hts ▸ move_error he
    refine .inr ⟨_, failing_illegal hstate (inHand_fresh ht) hts he, fun after hafter => ?_⟩
    refine judged_of hpre (fun _ hca => absurd hca List.not_mem_nil) fun _ => ?_
    have hreport : ¬ ReportedFailed H (upTo validated paying paid []) :=
      unreported hvalidated hpaying fun _ _ => List.not_mem_nil
    rw [hafter, Survives]
    by_cases hbefore : WrittenOff (some before)
    · simp [hbefore]
    · simp [hbefore, hno]
      tauto
  · next row hmove =>
    obtain ⟨hedge, hsubmitted, hrow⟩ := (inHand_fresh ht).move hmove
    have hkey : row.cur.authorization_id = x.auth.authorization_id := by
      obtain ⟨-, rfl⟩ := Orm.move_ok hmove
      exact (inHand_fresh ht).key
    have hbefore : ¬ WrittenOff (some before) := by
      rintro (hb | hb) <;> obtain rfl := Option.some.inj hb <;> exact absurd (hts ▸ hedge) (by decide)
    have hpay : Paying before validated paying ⟨.agentic x.auth.org_id, .capture_payment
        (.str payment_id) x.auth.amount_minor_units x.auth.currency
        (x.auth.authorization_id ++ ":capture")⟩ paid :=
      ⟨hvalidated, hpaying, ⟨_, _, _, _, rfl⟩, hbefore, fun _ => hts ▸ hedge⟩
    have hstamped := (hrow.set (f := fun t => adapter.provenance.elim t fun v => v.stamp t)
      (fun t => by cases adapter.provenance <;> rfl) fun t => by cases adapter.provenance <;> rfl).set
        (f := fun t => { t with razorpay_payment_id := some payment_id }) (fun _ => rfl) fun _ => rfl
    have hflushed := hstamped.flush (by cases adapter.provenance <;> exact hkey)
    refine wp_record_audit (wp_record_audit (capture_right hpay rfl hstate
      ((hflushed.audit _).audit _) ?_))
    cases adapter.provenance <;> exact hsubmitted

end

/-- The submission of the agentic path, before any capture. -/
theorem judged_paying {validated : Call × Option Answer} {paying : Call} {observed : Option Answer}
    {after : Option TxnState} (hvalidated : ∃ ref, validated.1.op = .validate_mandate ref)
    (hpaying : ∃ id ref amount currency merchant key,
      paying.op = .authorize_payment id ref amount currency merchant key)
    (h : WrittenOff after ↔ ¬ Survives before observed) :
    Judged H db before ([validated] ++ [(paying, observed)]) after := by
  obtain ⟨ref, hv⟩ := hvalidated
  obtain ⟨_, _, _, _, _, _, hp⟩ := hpaying
  refine judged_of (fun ca hca => ?_) (fun _ hca => absurd hca List.not_mem_nil) fun _ => ?_
  · rw [List.mem_singleton.mp hca, hv]
    rfl
  · have hno : ¬ ReportedFailed H ([validated] ++ [(paying, observed)]) := by
      refine not_reported fun cl r hmem _ _ _ _ hc => ?_
      rcases List.mem_append.mp hmem with hmem | hmem
      · rw [← List.mem_singleton.mp hmem] at hv
        exact absurd (hc.symm.trans hv) (by simp)
      · obtain ⟨rfl, -⟩ := Prod.mk.inj (List.mem_singleton.mp hmem)
        exact absurd (hc.symm.trans hp) (by simp)
    rw [h]
    exact ⟨.inl, fun hor => hor.resolve_right hno⟩

/-- A part that calls nobody. -/
theorem silent_calls {α : Type} {p : Handler α} (hp : p.Calls fun _ => False) :
    p.Wp (World.exec i) (fun _ c _ => c = calls) calls w := by
  refine Prog.wp_mono ?_ (Prog.wp_of_calls hp)
  rintro w' _ r ⟨more, rfl, hmore⟩
  rcases List.eq_nil_or_concat' more with rfl | ⟨more, ca, rfl⟩
  · exact List.append_nil _
  · exact absurd (hmore ca (by simp)) not_false

/-- The same, where nothing depends on the state. -/
theorem silent_wp {α : Type} {Q : World → List (Call × Option Answer) → Option α → Prop}
    {p : Handler α} (hall : ∀ s, Judged H db before calls s) (hp : p.Calls fun _ => False)
    (hQ : ∀ w' r, (∀ s, Judged H db before calls s) → Q w' calls r) :
    p.Wp (World.exec i) Q calls w := by
  refine Prog.wp_mono ?_ (silent_calls hp)
  rintro w' _ r rfl
  exact hQ w' r hall

theorem consume_agentic_settlement_right {adapter : AgenticAdapter}
    (hx : x.auth.authorization_id = id) (hstate : w.db.stateOf id = some before) :
    Right (EndsRight H db id before) i (consume_agentic_settlement H x adapter) [] w := by
  have hnothing : ∀ s, Judged H db before [] s := fun s =>
    Unsubmitted.judged fun _ h => absurd h List.not_mem_nil
  refine wp_now (wp_query ?_)
  split
  · exact silent_wp hnothing (Prog.calls_bind failClosed_calls fun _ => trivial)
      fun _ _ => EndsRight.of_all
  · next binding hbinding =>
    have hvalidate : ∀ (a : Option Answer) s, Judged H db before
        [(⟨.agentic x.auth.org_id, .validate_mandate binding.provider_mandate_ref⟩, a)] s := by
      refine fun a s => Unsubmitted.judged fun ca hca => ?_
      rw [List.mem_singleton.mp hca]
      rfl
    refine ⟨hvalidate none _, fun answer => ?_⟩
    cases answer with
    | error e => exact .inl (hvalidate _)
    | ok validation =>
      simp only [Prog.bind]
      split
      · next valid reason status _ _ _ =>
        split
        · exact silent_wp (hvalidate _) (Prog.calls_bind failClosed_calls fun _ => trivial)
            fun _ _ => EndsRight.of_all
        · refine ⟨?_, fun answer => ?_⟩
          · -- no answer: nothing was committed since
            show Judged H db before _ (w.db.stateOf id)
            rw [hstate]
            exact judged_paying ⟨_, rfl⟩ ⟨_, _, _, _, _, _, rfl⟩ survives_none
          · cases answer with
            | error e =>
              refine .inr ⟨_, failing_answer hstate e, fun after hafter => ?_⟩
              exact judged_paying ⟨_, rfl⟩ ⟨_, _, _, _, _, _, rfl⟩ hafter
            | ok paid =>
              simp only [Prog.bind]
              by_cases hwf : WellFormedReplies H db ([((⟨.agentic x.auth.org_id,
                  .validate_mandate binding.provider_mandate_ref⟩ : Call), some (.ok validation))] ++
                [(⟨.agentic x.auth.org_id, .authorize_payment x.auth.authorization_id
                  binding.provider_mandate_ref x.auth.amount_minor_units x.auth.currency x.auth.merchant
                  (x.auth.authorization_id ++ ":agentic")⟩, some (.ok paid))])
              · obtain ⟨ref, id', payment_id, href, hid', htext, hne⟩ :=
                  hwf _ _ (List.mem_append_right _ (List.mem_singleton_self _))
                rw [href, hid']
                dsimp only
                rw [htext, if_neg (by simp [Json.truthy, hne])]
                exact capture_agentic_right ⟨_, rfl⟩ ⟨_, _, _, _, _, _, rfl⟩ hx hstate
              · exact ill_formed_wp hwf (fun _ _ _ => EndsRight.of_all) _
      · exact .inl (hvalidate _)

/-- The `except` blocks around the agentic settlement. -/
theorem agentic_path_right {adapter : AgenticAdapter} (hx : x.auth.authorization_id = id)
    (hstate : w.db.stateOf id = some before) :
    (agentic_path H x adapter).Wp (World.exec i)
      (fun w' c _ => Judged H db before c (w'.db.stateOf id)) [] w := by
  have hsettle : Right (EndsRight H db id before) i (consume_agentic_settlement H x adapter) [] w :=
    consume_agentic_settlement_right hx hstate
  refine Prog.wp_bind (Prog.wp_mono ?_ hsettle)
  intro w' c r hr
  match r with
  | none => exact hr
  | some (.ok reply) => exact hr
  | some (.error raised) =>
    rcases hr with hall | ⟨X, hfail, hX⟩
    · refine silent_wp hall ?_ fun w' r h => h _
      dsimp only
      split
      · exact calls_access fun _ => calls_commit trivial
      · trivial
      · exact calls_access fun _ => calls_commit trivial
    · have hout := hfail.outcome
      dsimp only
      rw [hx]
      split
      · next text he =>
        rw [he] at hout
        refine hfail.record fun w' r hr hw' => hX _ ?_
        rw [hw', moveOrPass_unknown_iff hr]
        exact hout
      · next e he =>
        rw [he] at hout
        refine hX _ ?_
        rw [hfail.state]
        exact hout
      · next e htimeout hhttp =>
        refine hfail.record fun w' r hr hw' => hX _ ?_
        rw [hw', moveOrPass_failed_iff hr]
        split at hout
        · next e' he => exact absurd he (hhttp e')
        · next text he => exact absurd he (htimeout text)
        · exact hout

theorem execute_right (hx : x.auth.authorization_id = id)
    (hstate : w.db.stateOf id = some before) (hown : ∀ s, Own id s db → Own id s w.db) :
    (execute H x).Wp (World.exec i)
      (fun w' c _ => Judged H db before c (w'.db.stateOf id)) [] w := by
  have hnothing : ∀ s, Judged H db before [] s := fun s =>
    Unsubmitted.judged fun _ h => absurd h List.not_mem_nil
  unfold execute
  split
  · exact silent_wp hnothing handle_raised_calls fun w' r h => h _
  · split
    · exact hnothing _
    · split
      · exact agentic_path_right hx hstate
      · split
        · exact silent_wp hnothing failClosed_calls fun w' r h => h _
        · refine Prog.wp_bind (Prog.wp_mono ?_ (create_order_right hx hstate hown))
          intro w' c r hr
          match r with
          | none => exact hr
          | some (.ok reply) => exact hr
          | some (.error raised) =>
            rcases hr with hall | ⟨X, hfail, hX⟩
            · exact silent_wp hall handle_raised_calls fun w' r h => h _
            · refine Prog.wp_mono ?_ (handle_raised_ends hx hfail)
              rintro w' _ r ⟨rfl, hoff⟩
              exact hX _ hoff

end

/-! ## The whole request -/

/-- A write that gives no transaction an order id. -/
def Write.KeepsOrders : Write → Prop
  | .updateTxn l c => c.razorpay_order_id = l.razorpay_order_id
  | .insertTxn t => t.razorpay_order_id = none
  | _ => True

theorem apply_own {db db' : DB} {x : Write} {s : String} (hx : x.KeepsOrders)
    (h : db.apply x = some db') (hown : Own id s db) : Own id s db' := by
  cases x with
  | updateTxn l c =>
    simp only [DB.apply] at h
    split at h
    · exact absurd h (by simp)
    · obtain rfl := Option.some.inj h
      intro t ht hts
      obtain ⟨t₀, ht₀, rfl⟩ := List.mem_map.mp ht
      have hx : c.razorpay_order_id = l.razorpay_order_id := hx
      dsimp only at hts ⊢
      split at hts
      · next hid =>
        rw [if_pos hid]
        exact hown t₀ ht₀ (by simpa [ProviderTransaction.patch, hx] using hts)
      · next hid =>
        rw [if_neg hid]
        exact hown t₀ ht₀ hts
  | insertTxn t =>
    simp only [DB.apply, insertUnique] at h
    split at h
    · exact absurd h (by simp)
    · obtain rfl := Option.some.inj h
      intro t' ht' hts
      rcases List.mem_append.mp ht' with ht' | ht'
      · exact hown t' ht' hts
      · obtain rfl := List.mem_singleton.mp ht'
        exact absurd (hx.symm.trans hts) (by simp)
  | _ =>
    -- a write to another table
    first
      | obtain rfl := Option.some.inj h
        exact hown
      | obtain ⟨_, _, hrows⟩ := Option.bind_eq_some_iff.mp h
        obtain rfl := Option.some.inj hrows
        exact hown

theorem applyAll_own {s : String} {ws : List Write} (hws : ∀ x ∈ ws, x.KeepsOrders) {db db' : DB}
    (h : db.applyAll ws = .ok db') (hown : Own id s db) : Own id s db' :=
  applyAll_keeps_all (P := Write.KeepsOrders) (fun _ _ _ hx happly hk => apply_own hx happly hk) hws h hown

theorem onState_proofs {s : Session} (hs : s.OnlyProofs) : ∀ state, s.onState id state = state := by
  induction s with
  | nil => exact fun _ => rfl
  | cons x s ih =>
    intro state
    obtain ⟨p, rfl⟩ := hs x List.mem_cons_self
    exact ih (fun y hy => hs y (List.mem_cons_of_mem _ hy)) state

/-- The reservation's commit: the row is there, in the state it had. -/
theorem reserved_state {db db' : DB} {auth : BoundedAuthorization} {pending : Session}
    (hid : auth.authorization_id = id) (hpending : pending.OnlyProofs)
    (h : db.applyAll (pending ++ countAttempt auth
      (db.txns.find? fun t => t.authorization_id == id)) = .ok db') :
    db'.stateOf id = some ((db.stateOf id).getD .AUTHORIZED) ∧
      ∀ s, Own id s db → Own id s db' := by
  have hsplit : ∀ ws, Session.onState id (pending ++ ws) (db.stateOf id) =
      Session.onState id ws (db.stateOf id) := by
    intro ws
    unfold Session.onState
    rw [List.foldl_append, ← Session.onState, ← Session.onState, onState_proofs hpending]
    rfl
  constructor
  · rw [applyAll_stateOf h, hsplit]
    unfold DB.stateOf
    cases hfind : db.txns.find? fun t => t.authorization_id == id with
    | none =>
      simp [countAttempt, Session.onState, Write.onState, record_provider_txn, hid]
    | some t =>
      have ht : t.authorization_id = id := by simpa using List.find?_some hfind
      simp [countAttempt, Session.onState, Write.onState, ht]
  · intro s
    refine applyAll_own (fun x hx => ?_) h
    rcases List.mem_append.mp hx with hx | hx
    · obtain ⟨p, rfl⟩ := hpending x hx
      trivial
    · cases hfind : db.txns.find? fun t => t.authorization_id == id with
      | none =>
        rw [hfind] at hx
        rcases List.mem_cons.mp hx with rfl | hx
        · rfl
        · rw [List.mem_singleton.mp hx]
          rfl
      | some t =>
        rw [hfind] at hx
        rw [List.mem_singleton.mp hx]
        rfl

/-- The state a consumption finds: a transaction it has to create is `AUTHORIZED`. -/
def DB.foundState (db : DB) (id : String) : TxnState := (db.stateOf id).getD .AUTHORIZED

theorem consume_judged (ctx : RequestContext) (session_token : String) :
    (consume_authorization H ctx id session_token).Wp (World.exec i)
      (fun w' c _ => Judged H w.db (w.db.foundState id) c (w'.db.stateOf id)) [] w := by
  have hnothing : ∀ s, Judged H w.db (w.db.foundState id) [] s := fun s =>
    Unsubmitted.judged fun _ h => absurd h List.not_mem_nil
  refine wp_query ?_
  split
  · exact hnothing _
  · next auth hfind =>
    have hid : auth.authorization_id = id := by simpa using List.find?_some hfind
    refine wp_authenticated (hnothing _) (fun _ => hnothing _) fun tok a _ ha => ?_
    refine Prog.wp_bind (Prog.wp_mono ?_ (reads_wp (revalidate_execution_reads H auth)))
    rintro w' c r ⟨rfl, rfl, -⟩
    match r with
    | none => exact hnothing _
    | some (.error e) => exact hnothing _
    | some (.ok agent) =>
      refine wp_reserve ?_
      have htxns : (w'.exec i (.reserve id .consume)).db.txns = w'.db.txns := by
        unfold World.exec
        dsimp only
        split <;> rfl
      split
      · exact hnothing _
      · refine wp_query (wp_commit (fun _ _ => hnothing _) fun db' hdb' => ?_)
        obtain ⟨hstate, hown⟩ := reserved_state hid ha.pending hdb'
        rw [stateOf_of_txns htxns] at hstate
        refine wp_query (wp_query (execute_right hid hstate fun s hs => hown s ?_))
        unfold Own
        rw [htxns]
        exact hs

/-- **When a consumption writes its payment off.** Whatever the provider does, the hidden
fact that it accepted the payment-creating call is respected - the transaction is not left
`FAILED` or `DECLINED` unless the provider itself reported so - exactly where what was
observed of that call does not write it off. -/
theorem accepted_not_written_off {H : Host} (w : World) (i : Nat) (ctx : RequestContext)
    (id session_token : String) (answers : List Answer) (accepted : Prop)
    (hreplies : WellFormedReplies H w.db
      (Server.serve H (.consume ctx id session_token) answers w i).calls) {cl : Call}
    {observed : Option Answer}
    (hcall : (cl, observed) ∈ (Server.serve H (.consume ctx id session_token) answers w i).calls)
    (hsubmits : cl.op.submits ≠ none) :
    (accepted → ¬ WrittenOff ((Server.serve H (.consume ctx id session_token) answers w i).store.db.stateOf id) ∨
        ReportedFailed H (Server.serve H (.consume ctx id session_token) answers w i).calls) ↔
      (accepted → Survives (w.db.foundState id) observed ∨
        ReportedFailed H (Server.serve H (.consume ctx id session_token) answers w i).calls) := by
  have hjudged : Judged H w.db (w.db.foundState id)
      (Server.serve H (.consume ctx id session_token) answers w i).calls
      ((Server.serve H (.consume ctx id session_token) answers w i).store.db.stateOf id) := by
    refine Server.serve_spec (Q := fun w' c _ =>
      Judged H w.db (w.db.foundState id) c (w'.db.stateOf id)) answers ?_
    refine Prog.wp_mono (fun w' c _ h => ?_) (consume_judged ctx session_token)
    rw [stateOf_of_txns (rollback_txns i w')]
    exact h
  have hiff := hjudged hreplies cl observed hcall hsubmits
  rw [hiff]
  tauto

/-! ## An accepted order, seen as an error -/

namespace Sample

/-- A consumption whose order call is answered so. -/
def consumption (answer : Answer) : Prog.Outcome World Call Answer Reply :=
  Server.serve (host false []) (.consume ctx "auth" "agent") [answer]
    (world (db [authorization 100] [txn .AUTHORIZED none none none]))

/-- The call that creates the order. -/
def orderCall : Call := ⟨.razorpay "default" "key", .create_payment "auth" 100 "INR"
  [("paari_transaction_id", "trace"), ("paari_agent_id", "agent")]⟩

theorem consumption_calls (e : Exc) :
    (consumption (.error e)).calls = [(orderCall, some (.error e))] := by
  cases e <;> rfl

theorem consumption_unreported (e : Exc) : ¬ ReportedFailed (host false []) (consumption (.error e)).calls := by
  rw [consumption_calls]
  exact not_reported fun cl r hmem => absurd (List.mem_singleton.mp hmem) (by simp)

end Sample

/-- A timeout on an accepted call does not write it off. -/
theorem accepted_not_written_off_timeout :
    ¬ WrittenOff ((Sample.consumption (.error (.timeout "t"))).store.db.stateOf "auth") ∨
      ReportedFailed (Sample.host false []) (Sample.consumption (.error (.timeout "t"))).calls := by
  refine (@accepted_not_written_off _ _ 0 Sample.ctx "auth" "agent" _ True (fun cl r hmem => ?_)
    Sample.orderCall (some (.error (.timeout "t"))) ?_ ?_).mpr (fun _ => .inl ?_) trivial
  · have hmem : (cl, some (.ok r)) ∈ (Sample.consumption (.error (.timeout "t"))).calls := hmem
    rw [Sample.consumption_calls] at hmem
    exact absurd (List.mem_singleton.mp hmem) (by simp)
  · show _ ∈ (Sample.consumption (.error (.timeout "t"))).calls
    rw [Sample.consumption_calls]
    exact List.mem_singleton_self _
  · exact Option.some_ne_none _
  · exact ⟨by decide, fun _ => trivial⟩

/-- Any other error does: the order may exist, and the transaction is `FAILED`. -/
theorem accepted_written_off :
    ¬ (True → ¬ WrittenOff ((Sample.consumption (.error (.other "HTTP 502"))).store.db.stateOf "auth") ∨
      ReportedFailed (Sample.host false []) (Sample.consumption (.error (.other "HTTP 502"))).calls) := by
  intro h
  rcases h trivial with halive | hreported
  · exact halive (.inl rfl)
  · exact Sample.consumption_unreported _ hreported

end Paari
