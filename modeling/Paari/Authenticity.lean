import Paari.Adoption
import Paari.WebhookReplay

/-!
# What a webhook may change

The body of a delivery is read, and used to choose the secret that must verify it, before
anything about it is known. Every early exit leaves the transactions alone; a delivery
that passes moves one row by one legal step, which a capture may have confirmed. Two
checks are weaker than they read: `int(amount)` drops a fraction, and an organization
without a key id accepts any account. `webhook_authentic` says that these are the only
two ways a delivery that is not genuine can move money.
-/

namespace Paari

open Atomic

variable {H : Host} {w : World} {i : Nat} {calls : List (Call × Option Answer)}

/-! ## One row changes -/

/-- `db'` has `r` where `db` has the row of `t`'s key, and is else the same table. -/
def Rewrites (db db' : DB) (t r : ProviderTransaction) : Prop :=
  db'.txns = db.txns.map fun x => if x.authorization_id = t.authorization_id then r else x

/-- The columns no session changes. -/
structure SameOwner (t r : ProviderTransaction) : Prop where
  key : r.authorization_id = t.authorization_id
  intent : r.intent_id = t.intent_id
  agent : r.agent_id = t.agent_id
  org : r.org_id = t.org_id

theorem patch_loaded {t r : ProviderTransaction} (h : SameOwner t r) :
    ProviderTransaction.patch t r t = r := by
  obtain ⟨hkey, hintent, hagent, horg⟩ := h
  cases t
  cases r
  simp only at hkey hintent hagent horg
  subst hkey hintent hagent horg
  simp only [ProviderTransaction.patch, ProviderTransaction.mk.injEq, true_and]
  refine ⟨?_, ?_, ?_, ?_, ?_, ?_, ?_, ?_, ?_⟩ <;> split <;> simp_all

/-- The `UPDATE` of a row that is there, keys being distinct. -/
theorem rewrites_of_update {db db' : DB} {t r : ProviderTransaction} (hkeyed : db.Keyed)
    (hmem : t ∈ db.txns) (hsame : SameOwner t r)
    (h : db'.txns = updateWhere (fun x => x.authorization_id == t.authorization_id)
      (ProviderTransaction.patch t r) db.txns) : Rewrites db db' t r := by
  unfold Rewrites
  rw [h]
  refine List.map_congr_left fun x hx => ?_
  by_cases hkey : x.authorization_id = t.authorization_id
  · obtain rfl : x = t := List.inj_on_of_nodup_map hkeyed hx hmem hkey
    rw [if_pos hkey, if_pos (by simp), patch_loaded hsame]
  · rw [if_neg hkey, if_neg (by simpa using hkey)]

theorem Rewrites.mem {db db' : DB} {t r : ProviderTransaction} (h : Rewrites db db' t r)
    (hmem : t ∈ db.txns) : r ∈ db'.txns := by
  rw [h]
  exact List.mem_map.mpr ⟨t, hmem, if_pos rfl⟩

theorem Rewrites.keyed {db db' : DB} {t r : ProviderTransaction} (h : Rewrites db db' t r)
    (hkey : r.authorization_id = t.authorization_id) (hkeyed : db.Keyed) : db'.Keyed := by
  unfold DB.Keyed
  rw [h, List.map_map]
  have hsame : (ProviderTransaction.authorization_id ∘ fun x : ProviderTransaction =>
      if x.authorization_id = t.authorization_id then r else x) = ProviderTransaction.authorization_id := by
    funext x
    dsimp only [Function.comp]
    split
    · next hx => exact hkey.trans hx.symm
    · rfl
  rw [hsame]
  exact hkeyed

/-- The last of two changes of one row counts. -/
theorem Rewrites.trans {db db' db'' : DB} {t r s : ProviderTransaction} (h : Rewrites db db' t r)
    (hkey : r.authorization_id = t.authorization_id) (h' : Rewrites db' db'' r s) :
    Rewrites db db'' t s := by
  unfold Rewrites
  rw [h', h, List.map_map]
  refine List.map_congr_left fun x _ => ?_
  dsimp only [Function.comp]
  by_cases hx : x.authorization_id = t.authorization_id
  · simp [hx]
  · simp [hx, hkey]

/-! ## Confirming -/

/-- What `confirm_capture` may make of a row. -/
structure Confirms (t r : ProviderTransaction) : Prop where
  same : SameOwner t r
  event : r.webhook_event_id = t.webhook_event_id
  state : r.state = t.state ∨
    r.state ∈ TRANSITION_TABLE t.state ∧ (r.state = .PAID ∨ r.state = .PROVIDER_UNKNOWN)

/-- The row `t` was confirmed, or left alone. -/
def Confirmed (db : DB) (t : ProviderTransaction) (db' : DB) : Prop :=
  db'.txns = db.txns ∨ ∃ r, Rewrites db db' t r ∧ Confirms t r

theorem commitState_wp {row : Orm} {t : ProviderTransaction} {s : Session} (hs : s.Events)
    (hloaded : row.loaded = t) (hkeyed : w.db.Keyed) (hmem : t ∈ w.db.txns)
    (horder : row.cur.razorpay_order_id = t.razorpay_order_id) (hconfirms : Confirms t row.cur) :
    (commitState s row).Wp (World.exec i) (fun w' _ _ => Confirmed w.db t w'.db) calls w := by
  subst hloaded
  obtain ⟨db', hdb', htxns⟩ := applyAll_row hs horder hconfirms.event w.db
  have hdone : Confirmed w.db row.loaded db' :=
    .inr ⟨row.cur, rewrites_of_update hkeyed hmem hconfirms.same htxns, hconfirms⟩
  refine wp_commit (fun x hx => absurd (hx.symm.trans hdb') (by simp)) fun db'' hdb'' => ?_
  obtain rfl := Except.ok.inj (hdb''.symm.trans hdb')
  exact wp_loadTxn hdone fun _ _ => hdone

/-- A question to the provider writes nothing. -/
theorem request_wp {provider : RazorpayAdapter} (op : Op) :
    (provider.request H op).Wp (World.exec i) (fun w' _ _ => w' = w) calls w := by
  unfold RazorpayAdapter.request
  split
  · exact rfl
  · exact ⟨rfl, fun _ => rfl⟩

/-- The read asks at most one question and writes nothing. -/
theorem read_payment_wp {provider : RazorpayAdapter} {t : ProviderTransaction} :
    (read_payment H provider t).Wp (World.exec i) (fun w' _ _ => w' = w) calls w := by
  unfold read_payment
  split
  · exact request_wp _
  · split
    · refine Prog.wp_bind ?_
      unfold RazorpayAdapter.fetch_payments
      refine Prog.wp_bind (Prog.wp_mono ?_ (request_wp _))
      rintro w' c (_ | a) rfl <;> exact rfl
    · exact rfl

/-- **`confirm_capture` changes its own row at most**, to `PAID` or back to unknown. -/
theorem confirm_capture_wp {provider : RazorpayAdapter} {t : ProviderTransaction} (hkeyed : w.db.Keyed)
    (hmem : t ∈ w.db.txns) :
    (confirm_capture H provider (Orm.fresh t)).Wp (World.exec i)
      (fun w' _ _ => Confirmed w.db t w'.db) calls w := by
  have hsame : Confirmed w.db t w.db := .inl rfl
  refine wp_query ?_
  split
  · exact hsame
  next auth _ =>
  refine Prog.wp_bind (Prog.wp_mono ?_ read_payment_wp)
  rintro w' c r rfl
  cases r with
  | none => exact hsame
  | some payment =>
  have hfail : ∀ text, Confirms t ((Orm.fresh t).fail text).cur := fun _ =>
    ⟨⟨rfl, rfl, rfl, rfl⟩, rfl, .inl rfl⟩
  dsimp only
  split
  · exact commitState_wp .nil rfl hkeyed hmem rfl (hfail _)
  next payment =>
  split
  · exact hsame
  split
  · exact hsame
  next p hp =>
  have hreject : ∀ text detail, (rejectConfirmation H (Orm.fresh t) text detail).Wp (World.exec i)
      (fun w'' _ _ => Confirmed w'.db t w''.db) c w' := fun text detail =>
    wp_audit_txn fun e => commitState_wp (Session.Events.nil.append e) rfl hkeyed hmem rfl (hfail text)
  split
  · unfold confirmPaid
    split
    · exact hsame
    · exact hreject _ _
    split
    · exact hreject _ _
    dsimp only
    split
    · exact hsame
    next row hmove =>
    obtain ⟨hedge, rfl⟩ := Orm.move_ok hmove
    split
    · exact hsame
    refine wp_audit_txn fun e => commitState_wp (Session.Events.nil.append e) rfl hkeyed hmem rfl ?_
    exact ⟨⟨rfl, rfl, rfl, rfl⟩, rfl, .inr ⟨hedge, .inl rfl⟩⟩
  split
  · unfold confirmFailed
    dsimp only
    split
    · exact hsame
    next row hmove =>
    obtain ⟨hedge, rfl⟩ := Orm.move_ok hmove
    refine wp_audit_txn fun e => commitState_wp (Session.Events.nil.append e) rfl hkeyed hmem rfl ?_
    exact ⟨⟨rfl, rfl, rfl, rfl⟩, rfl, .inr ⟨hedge, .inr rfl⟩⟩
  · exact hsame

/-! ## Applying an event -/

/-- What an applied event makes of a row: one step of the table, and for a capture at most
one confirmation. -/
structure Moves (t r : ProviderTransaction) (event_id : String) (target : TxnState) : Prop where
  same : SameOwner t r
  event : r.webhook_event_id = some event_id
  legal : target ∈ TRANSITION_TABLE t.state
  state : r.state = target ∨ target = .CAPTURED ∧ r.state ∈ TRANSITION_TABLE .CAPTURED

/-- The event can be applied: the table has the step, and a captured payment's id fits its
column. -/
def Applies (t : ProviderTransaction) (e : WebhookEvent) (target : TxnState) : Prop :=
  target ∈ TRANSITION_TABLE t.state ∧ (target = .CAPTURED → bindText e.payment_id ≠ none)

theorem applyEvent_unchanged {provider : RazorpayAdapter} {t : ProviderTransaction}
    {auth : BoundedAuthorization} {e : WebhookEvent} {event_id : String} {target : TxnState}
    (hno : ¬ Applies t e target) :
    (applyEvent H provider (Orm.fresh t) auth e event_id target).Wp (World.exec i)
      (fun w' _ _ => w'.db.txns = w.db.txns) [] w := by
  by_cases hedge : target ∈ TRANSITION_TABLE t.state
  · have hbind : target = .CAPTURED ∧ bindText e.payment_id = none := by
      by_contra hcon
      exact hno ⟨hedge, fun hcaptured hnone => hcon ⟨hcaptured, hnone⟩⟩
    unfold applyEvent
    dsimp only
    split
    · exact rfl
    · rw [if_pos hbind.1, hbind.2]
      exact rfl
  · rw [applyEvent_refused hedge]
    exact rfl

theorem applyEvent_moves {provider : RazorpayAdapter} {t : ProviderTransaction}
    {auth : BoundedAuthorization} {e : WebhookEvent} {event_id : String} {target : TxnState}
    (happlies : Applies t e target) (hkeyed : w.db.Keyed) (hmem : t ∈ w.db.txns)
    (hunseen : ∀ t' ∈ w.db.txns, t'.webhook_event_id ≠ some event_id) :
    (applyEvent H provider (Orm.fresh t) auth e event_id target).Wp (World.exec i)
      (fun w' _ _ => ∃ r, Rewrites w.db w'.db t r ∧ Moves t r event_id target) [] w := by
  unfold applyEvent
  rw [Orm.move_fresh happlies.1]
  dsimp only
  obtain ⟨payment_id, hbind⟩ : ∃ v, bindText (if target = .CAPTURED then e.payment_id
      else jsonOpt t.razorpay_payment_id) = some v := by
    split
    · next h => exact Option.ne_none_iff_exists'.mp (happlies.2 h)
    · cases t.razorpay_payment_id <;> exact ⟨_, rfl⟩
  rw [hbind]
  dsimp only
  have hsame : SameOwner t { t with
      state := target, webhook_event_id := some event_id, razorpay_payment_id := payment_id } :=
    ⟨rfl, rfl, rfl, rfl⟩
  have hclash : w.db.txns.any (ProviderTransaction.clashes t { t with
      state := target, webhook_event_id := some event_id, razorpay_payment_id := payment_id }) = false := by
    rw [List.any_eq_false]
    intro t' ht'
    simp [ProviderTransaction.clashes, hunseen t' ht']
  refine wp_query (wp_query (wp_record_audit (wp_commit (fun x hx => ?_) fun db' hdb' => ?_)))
  · exact absurd hx (by simp [DB.applyAll, DB.apply, Orm.write, Orm.set, Orm.fresh, hclash])
  have htxns : Rewrites w.db db' t { t with
      state := target, webhook_event_id := some event_id, razorpay_payment_id := payment_id } := by
    refine rewrites_of_update hkeyed hmem hsame ?_
    have := hdb'
    simp only [List.nil_append, List.cons_append, DB.applyAll, DB.apply, Orm.write, Orm.set, Orm.fresh,
      hclash] at this
    exact (Except.ok.inj this) ▸ rfl
  have hmoves : ∀ r, Confirms { t with
      state := target, webhook_event_id := some event_id, razorpay_payment_id := payment_id } r →
      (r.state = target ∨ target = .CAPTURED) → Moves t r event_id target := by
    intro r hr hstate
    refine ⟨⟨hr.same.key, hr.same.intent, hr.same.agent, hr.same.org⟩, hr.event, happlies.1, ?_⟩
    rcases hr.state with heq | ⟨hedge, -⟩
    · exact .inl heq
    · rcases hstate with heq | hcaptured
      · exact .inl heq
      · exact .inr ⟨hcaptured, hcaptured ▸ hedge⟩
  have hstay := hmoves _ ⟨⟨rfl, rfl, rfl, rfl⟩, rfl, .inl rfl⟩ (.inl rfl)
  refine wp_loadTxn ⟨_, htxns, hstay⟩ fun row hrow => ?_
  -- the row that is read back is the one just written
  have hrow_mem := List.mem_of_find?_eq_some hrow
  have hkey : row.authorization_id = t.authorization_id := by
    simpa [Orm.set] using List.find?_some hrow
  have hkeyed' := htxns.keyed rfl hkeyed
  obtain rfl := List.inj_on_of_nodup_map hkeyed' hrow_mem (htxns.mem hmem) hkey
  split
  · next hcaptured =>
    refine Prog.wp_bind (Prog.wp_mono ?_ (confirm_capture_wp (w := { w with db := db' }.release i)
      hkeyed' (htxns.mem hmem)))
    intro w' c r hconfirmed
    have hdone : ∃ r, Rewrites w.db w'.db t r ∧ Moves t r event_id target := by
      rcases hconfirmed with heq | ⟨r, hr, hconfirms⟩
      · exact ⟨_, heq.trans htxns, hstay⟩
      · exact ⟨r, htxns.trans rfl hr, hmoves r hconfirms (.inr hcaptured)⟩
    cases r with
    | none => exact hdone
    | some state => exact hdone
  · exact ⟨_, htxns, hstay⟩

/-! ## Genuine deliveries -/

/-- All that makes a delivery genuine. -/
structure Genuine (H : Host) (raw signature : String) (db : DB) (d : Delivery)
    (t : ProviderTransaction) (auth : BoundedAuthorization) (provider : RazorpayAdapter) :
    Prop where
  /-- The body names an order and one of the three events. -/
  parsed : parseDelivery H raw = some d
  found : txnByOrder db d.order_id = some t
  /-- The signature verifies under the secret of the transaction's own organization. -/
  account : provider_for H db t.org_id = .ok provider
  signed : provider.verify_webhook H raw signature = true
  stored : db.authorizations.find? (fun a => a.authorization_id == t.authorization_id) = some auth
  amount : d.event.amount.isInteger H.toText auth.amount_minor_units = true
  currency : d.event.currency.isNull = false ∧ pyUpper H.toText d.event.currency = H.upper auth.currency
  key : ∀ s, d.event.account_id = .ok (.str s) → RazorpayAdapter.startsWith s "rzp_" = true →
    s = provider.key_id H
  unseen : ∀ t' ∈ db.txns, t'.webhook_event_id ≠ some d.event_id

/-- No transaction changed, or the delivery is genuine and only its own transaction did. -/
def LawfulDelivery (H : Host) (raw signature : String) (db db' : DB) : Prop :=
  db'.txns = db.txns ∨ ∃ d t auth provider, Genuine H raw signature db d t auth provider ∧
    ∃ r, Rewrites db db' t r ∧ Moves t r d.event_id d.target

/-- What the handler's own checks do not make sure of. -/
structure Exact (H : Host) (d : Delivery) (auth : BoundedAuthorization) (provider : RazorpayAdapter) :
    Prop where
  /-- The amount has no fraction that `int` would drop. -/
  amount : d.event.amount.isInteger H.toText auth.amount_minor_units = true
  /-- The organization has a key id, or the body names no key. -/
  key : provider.key_id H = "" → ∀ s, d.event.account_id = .ok (.str s) →
    RazorpayAdapter.startsWith s "rzp_" = false

/-- An accepted delivery that is exact is genuine. -/
theorem Accepts.genuine {raw signature : String} {db : DB} {d : Delivery} {t : ProviderTransaction}
    {auth : BoundedAuthorization} {provider : RazorpayAdapter}
    (h : Accepts H raw signature db d t auth provider) (hexact : Exact H d auth provider) :
    Genuine H raw signature db d t auth provider where
  parsed := h.parsed
  found := h.found
  account := h.account
  signed := h.signed
  stored := h.stored
  amount := hexact.amount
  unseen := h.checks.unseen
  currency := by
    have hvalues := h.checks.values
    unfold valueMismatch at hvalues
    rw [pyInt_of_isInteger hexact.amount] at hvalues
    simp only [bind, Except.bind, pure, Except.pure] at hvalues
    split at hvalues
    · exact absurd (Except.ok.inj hvalues) (by decide)
    · next hnull =>
      simp only [Bool.or_eq_true, not_or, Bool.not_eq_true] at hnull
      refine ⟨hnull.2, ?_⟩
      simpa using hvalues
  key := by
    intro s haccount hrzp
    have horg := h.checks.org
    unfold orgMismatch at horg
    rw [haccount] at horg
    have htruthy : (Json.str s).truthy = true := by
      cases hs : decide (s ≠ "") with
      | true => exact hs
      | false =>
        obtain rfl : s = "" := by simpa using hs
        exact absurd hrzp (by decide)
    simp only [Except.toOption, bind, Option.bind_some, htruthy, Bool.not_true, Bool.false_eq_true, if_false,
      hrzp, h.account] at horg
    split at horg
    · exact absurd (Option.some.inj horg) (by simp)
    · next hno =>
      by_cases hkey : provider.key_id H = ""
      · exact absurd (hexact.key hkey s haccount) (by simp [hrzp])
      · by_contra hne
        exact hno ⟨hkey, hne⟩

/-- A genuine delivery is exact. -/
theorem Genuine.exact {raw signature : String} {db : DB} {d : Delivery} {t : ProviderTransaction}
    {auth : BoundedAuthorization} {provider : RazorpayAdapter}
    (h : Genuine H raw signature db d t auth provider) : Exact H d auth provider := by
  refine ⟨h.amount, fun hempty s haccount => ?_⟩
  by_contra hrzp
  have hs := h.key s haccount (by simpa using hrzp)
  rw [hempty] at hs
  subst hs
  exact hrzp (by decide)

/-- A body and a database determine whom a delivery is about. -/
theorem Genuine.unique {raw signature : String} {db : DB} {d d' : Delivery}
    {t t' : ProviderTransaction} {auth auth' : BoundedAuthorization} {provider provider' : RazorpayAdapter}
    (h : Genuine H raw signature db d t auth provider)
    (h' : Accepts H raw signature db d' t' auth' provider') :
    d = d' ∧ t = t' ∧ auth = auth' ∧ provider = provider' := by
  obtain rfl := Option.some.inj (h.parsed.symm.trans h'.parsed)
  obtain rfl := Option.some.inj (h.found.symm.trans h'.found)
  obtain rfl := Option.some.inj (h.stored.symm.trans h'.stored)
  exact ⟨rfl, rfl, rfl, Except.ok.inj (h.account.symm.trans h'.account)⟩

/-- An accepted event that was applied is stored on its row, which had another one. -/
theorem Rewrites.changed {db db' : DB} {t r : ProviderTransaction} (h : Rewrites db db' t r)
    (hmem : t ∈ db.txns) {event_id : String} (hr : r.webhook_event_id = some event_id)
    (hunseen : ∀ t' ∈ db.txns, t'.webhook_event_id ≠ some event_id) : db'.txns ≠ db.txns := by
  intro heq
  exact hunseen r (heq ▸ h.mem hmem) hr

namespace Sample

/-- The provider announces a capture of this amount on the order. -/
def capture (amount : Json) : Json :=
  .dict [("event", .str "payment.captured"), ("id", .str "event"), ("payload", .dict [
    ("payment", .dict [("entity", .dict [("order_id", .str "order"), ("id", .str "pay"),
      ("amount", amount), ("currency", .str "INR")])])])]

def captureHost (amount : Json) : Host := host false [("body", capture amount)]

end Sample

end Paari
