import Paari.Effects
import Paari.Server

/-!
# One webhook delivery

What a delivery says (`parseDelivery`), and what becomes of it when it is handled
alone: unless every check up to the transition table passes (`Accepts`) nothing moves
but the audit log, and if they pass and the table has the edge the event is applied.
-/

namespace Paari

open Atomic

/-! ## What a delivery says -/

/-- What the handler takes out of a body it can read to the end. -/
structure Delivery where
  event : WebhookEvent
  order_id : String
  event_id : String
  target : TxnState

/-- Read the body. -/
def parseDelivery (H : Host) (raw : String) : Option Delivery := do
  let event ← H.json_loads raw
  let e ← (readEvent H.toText event).toOption
  let order_id ← (bindText (if e.order_id.truthy then e.order_id else .null)).join
  let event_id ← (bindText (e.id.orElse (.str (H.sha256_hex raw)))).join
  let target ← eventTarget e.event_type
  return ⟨e, order_id, event_id, target⟩

/-- The event id is stored on some transaction. -/
def Delivery.Seen (d : Delivery) (db : DB) : Prop :=
  ∃ t ∈ db.txns, t.webhook_event_id = some d.event_id

/-- The delivery can no longer do anything: its event id is stored on some
transaction, or its transaction has no way to where the event would move it. -/
def Spent (H : Host) (raw : String) (db : DB) : Prop :=
  ∀ d, parseDelivery H raw = some d → ∀ t, txnByOrder db d.order_id = some t →
    d.Seen db ∨ d.target ∉ TRANSITION_TABLE t.state

/-- The body names the order of transaction `id` and is signed for its organization. -/
def Redelivers (H : Host) (raw signature : String) (db : DB) (id : String) : Prop :=
  ∃ d t provider, parseDelivery H raw = some d ∧ txnByOrder db d.order_id = some t ∧
    t.authorization_id = id ∧ provider_for H db t.org_id = .ok provider ∧
    provider.verify_webhook H raw signature = true

/-- How many `webhook_applied` events the log has. -/
def DB.webhooksApplied (db : DB) : Nat := db.audits.countP fun e => e.kind == "webhook_applied"

/-- Every transaction is as it was, and no webhook was applied. -/
def Unmoved (db db' : DB) : Prop :=
  db'.txns = db.txns ∧ db'.webhooksApplied = db.webhooksApplied

theorem parseDelivery_eq_some {H : Host} {raw : String} {d : Delivery} :
    parseDelivery H raw = some d ↔ ∃ event, H.json_loads raw = some event ∧
      readEvent H.toText event = .ok d.event ∧
      bindText (if d.event.order_id.truthy then d.event.order_id else .null) =
        some (some d.order_id) ∧
      bindText (d.event.id.orElse (.str (H.sha256_hex raw))) = some (some d.event_id) ∧
      eventTarget d.event.event_type = some d.target := by
  unfold parseDelivery
  constructor
  · intro h
    obtain ⟨event, hjson, h⟩ := Option.bind_eq_some_iff.mp h
    obtain ⟨e, he, h⟩ := Option.bind_eq_some_iff.mp h
    obtain ⟨order_id, ho, h⟩ := Option.bind_eq_some_iff.mp h
    obtain ⟨event_id, hid, h⟩ := Option.bind_eq_some_iff.mp h
    obtain ⟨target, ht, h⟩ := Option.bind_eq_some_iff.mp h
    obtain rfl := Option.some.inj h
    refine ⟨event, hjson, ?_, Option.join_eq_some_iff.mp ho, Option.join_eq_some_iff.mp hid, ht⟩
    cases hr : readEvent H.toText event with
    | error x => rw [hr] at he; exact absurd he (by simp [Except.toOption])
    | ok x => rw [hr] at he; exact congrArg _ (Option.some.inj he)
  · rintro ⟨event, hjson, hr, ho, hid, ht⟩
    rw [hjson]
    show (readEvent H.toText event).toOption.bind _ = _
    rw [hr]
    show (bindText (if d.event.order_id.truthy then d.event.order_id else .null)).join.bind _ = _
    rw [ho]
    show (bindText (d.event.id.orElse (.str (H.sha256_hex raw)))).join.bind _ = _
    rw [hid]
    show (eventTarget d.event.event_type).bind _ = _
    rw [ht]
    rfl

/-! ## One delivery, alone -/

/-- The checks of `checkEvent` pass. -/
structure Checks (H : Host) (raw : String) (db : DB) (t : ProviderTransaction)
    (auth : BoundedAuthorization) (e : WebhookEvent) (event_id : String) (target : TxnState) :
    Prop where
  org : orgMismatch H db t.org_id e.account_id = some none
  id : bindText (e.id.orElse (.str (H.sha256_hex raw))) = some (some event_id)
  unseen : ∀ t' ∈ db.txns, t'.webhook_event_id ≠ some event_id
  target : eventTarget e.event_type = some target
  values : valueMismatch H auth e = .ok false

/-- The delivery passes every check up to the transition table. -/
structure Accepts (H : Host) (raw signature : String) (db : DB) (d : Delivery)
    (t : ProviderTransaction) (auth : BoundedAuthorization) (provider : RazorpayAdapter) :
    Prop where
  body : raw ≠ ""
  parsed : parseDelivery H raw = some d
  found : txnByOrder db d.order_id = some t
  account : provider_for H db t.org_id = .ok provider
  signed : provider.verify_webhook H raw signature = true
  stored : db.authorizations.find? (fun a => a.authorization_id == t.authorization_id) = some auth
  checks : Checks H raw db t auth d.event d.event_id d.target

section
variable {H : Host} {Q : World → List (Call × Option Answer) → Option Reply → Prop} {w : World}
  {i : Nat}

/-- A rejected event is only noted. -/
theorem rejectEvent_wp {auth : BoundedAuthorization} {kind org_id : String}
    {detail : List (String × Json)} {reply : Reply} (hkind : kind ≠ "webhook_applied")
    (hQ : ∀ w' : World, Unmoved w.db w'.db → ∀ r, Q w' [] r) :
    (rejectEvent H auth kind org_id detail reply).Wp (World.exec i) Q [] w := by
  refine hQ _ ⟨?_, ?_⟩ _
  · show ((w.commit i [_]).db).txns = _
    rfl
  · show (w.db.audits ++ [_]).countP _ = _
    rw [List.countP_append]
    show _ + List.countP _ [_] = _
    rw [List.countP_singleton, if_neg (by simpa [auditEvent] using hkind), Nat.add_zero]
    rfl

theorem checkEvent_wp {provider : RazorpayAdapter} {raw : String} {t : ProviderTransaction}
    (ht : t ∈ w.db.txns) {auth : BoundedAuthorization} {e : WebhookEvent}
    (hquiet : (∀ event_id target, ¬ Checks H raw w.db t auth e event_id target) →
      ∀ w' : World, Unmoved w.db w'.db → ∀ r, Q w' [] r)
    (happly : ∀ event_id target, Checks H raw w.db t auth e event_id target →
      (applyEvent H provider (Orm.fresh t) auth e event_id target).Wp (World.exec i) Q [] w) :
    (checkEvent H provider raw (Orm.fresh t) auth e).Wp (World.exec i) Q [] w := by
  have hsame : Unmoved w.db w.db := ⟨rfl, rfl⟩
  refine wp_query ?_
  split
  · next horg =>
    exact hquiet (fun _ _ h => absurd (h.org.symm.trans horg) (by simp)) w hsame _
  · next expected actual horg =>
    exact rejectEvent_wp (by decide)
      (hquiet fun _ _ h => absurd (h.org.symm.trans horg) (by simp))
  next horg =>
  split
  · next event_id hid =>
    refine wp_query ?_
    by_cases hseen : ∃ t' ∈ w.db.txns, t'.webhook_event_id = some event_id
    · have hany : (w.db.txns.any fun t => t.webhook_event_id == some event_id) = true := by
        obtain ⟨t', ht', heq⟩ := hseen
        exact List.any_eq_true.mpr ⟨t', ht', by simpa using heq⟩
      rw [hany, Bool.or_true, if_pos rfl]
      refine hquiet (fun id' _ h => ?_) w hsame _
      obtain ⟨t', ht', heq⟩ := hseen
      have hsome := Option.some.inj (Option.some.inj (hid.symm.trans h.id))
      exact h.unseen t' ht' (hsome ▸ heq)
    have hnone : ¬ ((decide ((Orm.fresh t).cur.webhook_event_id = some event_id) ||
        w.db.txns.any fun t => t.webhook_event_id == some event_id) = true) := by
      intro hor
      rcases Bool.or_eq_true_iff.mp hor with heq | hany
      · exact hseen ⟨t, ht, of_decide_eq_true heq⟩
      · obtain ⟨t', ht', heq⟩ := List.any_eq_true.mp hany
        exact hseen ⟨t', ht', by simpa using heq⟩
    rw [if_neg hnone]
    split
    · next htarget =>
      exact hquiet (fun _ _ h => absurd (h.target.symm.trans htarget) (by simp)) w hsame _
    next target htarget =>
    split
    · next hvalues =>
      exact hquiet (fun _ _ h => absurd (h.values.symm.trans hvalues) (by simp)) w hsame _
    · next hvalues =>
      exact rejectEvent_wp (by decide)
        (hquiet fun _ _ h => absurd (h.values.symm.trans hvalues) (by simp))
    · next hvalues =>
      exact happly event_id target
        ⟨horg, hid, fun t' ht' heq => hseen ⟨t', ht', heq⟩, htarget, hvalues⟩
  · next hid => exact hquiet (fun event_id _ h => absurd h.id (hid event_id)) w hsame _

/-- A delivery handled alone: unless it is accepted nothing moves, and if it is the
event is applied. -/
theorem razorpay_webhook_wp {raw signature : String}
    (hquiet : (∀ d t auth provider, ¬ Accepts H raw signature w.db d t auth provider) →
      ∀ w' : World, Unmoved w.db w'.db → ∀ r, Q w' [] r)
    (happly : ∀ d t auth provider, Accepts H raw signature w.db d t auth provider →
      (applyEvent H provider (Orm.fresh t) auth d.event d.event_id d.target).Wp
        (World.exec i) Q [] w) :
    (razorpay_webhook H raw signature).Wp (World.exec i) Q [] w := by
  have hsame : Unmoved w.db w.db := ⟨rfl, rfl⟩
  unfold razorpay_webhook
  split
  · next hraw => exact hquiet (fun _ _ _ _ h => h.body hraw) w hsame _
  next hbody =>
  split
  · next hjson =>
    refine hquiet (fun _ _ _ _ h => ?_) w hsame _
    obtain ⟨event, hj, _⟩ := parseDelivery_eq_some.mp h.parsed
    exact absurd (hj.symm.trans hjson) (by simp)
  next event hjson =>
  split
  · next hread =>
    refine hquiet (fun _ _ _ _ h => ?_) w hsame _
    obtain ⟨event', hj, hr, _⟩ := parseDelivery_eq_some.mp h.parsed
    obtain rfl := Option.some.inj (hjson.symm.trans hj)
    exact absurd (hr.symm.trans hread) (by simp)
  next e hread =>
  -- what an accepted delivery of this body says
  have hread_as : ∀ {d}, parseDelivery H raw = some d → d.event = e ∧
      bindText (if e.order_id.truthy then e.order_id else .null) = some (some d.order_id) := by
    intro d hd
    obtain ⟨event', hj, hr, ho, _⟩ := parseDelivery_eq_some.mp hd
    obtain rfl := Option.some.inj (hjson.symm.trans hj)
    obtain rfl := Except.ok.inj (hread.symm.trans hr)
    exact ⟨rfl, ho⟩
  split
  · next horder =>
    refine hquiet (fun _ _ _ _ h => ?_) w hsame _
    exact absurd ((hread_as h.parsed).2.symm.trans horder) (by simp)
  next order_id horder =>
  refine wp_query (wp_query ?_)
  have horder_id : ∀ {d t auth provider}, Accepts H raw signature w.db d t auth provider →
      order_id = some d.order_id := fun h =>
    Option.some.inj (horder.symm.trans (hread_as h.parsed).2)
  cases hheld : order_id.bind (txnByOrder w.db) with
  | none =>
    -- no such order: whatever the signature, the event is not applied
    have hno : ∀ d t auth provider, ¬ Accepts H raw signature w.db d t auth provider := by
      intro d t auth provider h
      rw [horder_id h] at hheld
      exact absurd (h.found.symm.trans hheld) (by simp)
    split
    · exact hquiet hno w hsame _
    split
    · exact hquiet hno w hsame _
    split
    · exact hquiet hno w hsame _
    next o =>
    refine wp_query ?_
    rw [show txnByOrder w.db o = none from hheld]
    exact hquiet hno w hsame _
  | some t =>
    have hfound : ∀ {d t' auth provider}, Accepts H raw signature w.db d t' auth provider →
        t' = t := by
      intro d t' auth provider h
      rw [horder_id h] at hheld
      exact Option.some.inj (h.found.symm.trans hheld)
    split
    · next haccount =>
      refine hquiet (fun _ _ _ _ h => ?_) w hsame _
      have := hfound h ▸ h.account
      exact absurd (this.symm.trans haccount) (by simp)
    next provider haccount =>
    have haccount : provider_for H w.db t.org_id = .ok provider := haccount
    split
    · next hsigned =>
      refine hquiet (fun _ _ _ provider' h => ?_) w hsame _
      have hprovider := h.account
      rw [hfound h, haccount] at hprovider
      rw [Except.ok.inj hprovider, h.signed] at hsigned
      exact absurd hsigned (by simp)
    next hsigned =>
    split
    · exact absurd hheld (by simp)
    next o =>
    refine wp_query ?_
    rw [show txnByOrder w.db o = some t from hheld]
    have hrow : identity (some t) t = t := if_pos rfl
    refine wp_query ?_
    rw [hrow]
    split
    · next hstored =>
      refine hquiet (fun _ _ _ _ h => ?_) w hsame _
      exact absurd ((hfound h ▸ h.stored).symm.trans hstored) (by simp)
    next auth hstored =>
    refine checkEvent_wp (List.mem_of_find?_eq_some hheld) (fun hno => hquiet fun d t' auth' _ h => ?_)
      fun event_id target hchecks => ?_
    · obtain rfl := hfound h
      obtain rfl : auth' = auth := Option.some.inj (h.stored.symm.trans hstored)
      obtain rfl := (hread_as h.parsed).1
      exact hno _ _ h.checks
    · have hsign : provider.verify_webhook H raw signature = true := by simpa using hsigned
      refine happly ⟨e, o, event_id, target⟩ t auth provider
        ⟨hbody, parseDelivery_eq_some.mpr ⟨event, hjson, hread, horder, hchecks.id, hchecks.target⟩,
          hheld, haccount, hsign, hstored, hchecks⟩

/-- A fresh row takes the state that the table allows. -/
theorem Orm.move_fresh {t : ProviderTransaction} {target : TxnState}
    (h : target ∈ TRANSITION_TABLE t.state) :
    (Orm.fresh t).move target = .ok ⟨t, { t with state := target }⟩ := by
  unfold Orm.move transition_txn Orm.fresh
  rw [if_pos h]

theorem applyEvent_refused {provider : RazorpayAdapter} {t : ProviderTransaction}
    {auth : BoundedAuthorization} {e : WebhookEvent} {event_id : String} {target : TxnState}
    (htarget : target ∉ TRANSITION_TABLE t.state) :
    applyEvent H provider (Orm.fresh t) auth e event_id target = pure (.webhook "ignored" none) := by
  unfold applyEvent
  have hmove : (Orm.fresh t).move target = .error (illegalTransition t target) := by
    unfold Orm.move transition_txn Orm.fresh
    rw [if_neg htarget]
  rw [hmove]

/-- The commit of an accepted event goes through: no other transaction has its id. -/
theorem applied_commit {event : AuditEvent} {t c : ProviderTransaction} {res : Except Write DB}
    (hres : w.db.applyAll [.insertAudit event, .updateTxn t c] = res)
    (hkind : event.kind = "webhook_applied") (horder : c.razorpay_order_id = t.razorpay_order_id)
    (hunseen : ∀ t' ∈ w.db.txns, c.webhook_event_id = none ∨
      t'.webhook_event_id ≠ c.webhook_event_id) :
    ∃ db', res = .ok db' ∧ w.db.webhooksApplied < db'.webhooksApplied := by
  subst hres
  have hclash : w.db.txns.any (ProviderTransaction.clashes t c) = false := by
    rw [List.any_eq_false]
    intro t' ht'
    unfold ProviderTransaction.clashes
    rcases hunseen t' ht' with hnone | hne
    · simp [horder, hnone]
    · simp [horder, hne]
  refine ⟨{ w.db with
    audits := w.db.audits ++ [event]
    txns := updateWhere (fun t' => t'.authorization_id == t.authorization_id)
      (ProviderTransaction.patch t c) w.db.txns }, by simp [DB.applyAll, DB.apply, hclash], ?_⟩
  show _ < List.countP _ (w.db.audits ++ [event])
  rw [List.countP_append, List.countP_singleton, if_pos (by simpa using hkind)]
  unfold DB.webhooksApplied
  omega

/-- The commit of an accepted event goes through, and its audit event stays. -/
theorem applyEvent_applied {provider : RazorpayAdapter} {t : ProviderTransaction}
    {auth : BoundedAuthorization} {e : WebhookEvent} {event_id : String} {target : TxnState}
    (htarget : target ∈ TRANSITION_TABLE t.state)
    (hpayment : target = .CAPTURED → ∃ p, bindText e.payment_id = some p)
    (hunseen : ∀ t' ∈ w.db.txns, t'.webhook_event_id ≠ some event_id) :
    (applyEvent H provider (Orm.fresh t) auth e event_id target).Wp (World.exec i)
      (fun w' _ _ => w.db.webhooksApplied < w'.db.webhooksApplied) [] w := by
  unfold applyEvent
  rw [Orm.move_fresh htarget]
  dsimp only
  obtain ⟨payment_id, hbind⟩ : ∃ p, bindText (if target = .CAPTURED then e.payment_id
      else jsonOpt t.razorpay_payment_id) = some p := by
    split
    · next h => exact hpayment h
    · cases t.razorpay_payment_id <;> exact ⟨_, rfl⟩
  rw [hbind]
  refine wp_query (wp_query (wp_record_audit (wp_commit (fun x hx => ?_) fun db' hdb' => ?_)))
  · obtain ⟨db', hdb', _⟩ := applied_commit hx rfl rfl fun t' ht' => .inr (hunseen t' ht')
    exact absurd hdb' (by simp)
  · obtain ⟨db'', hdb'', hgrows⟩ := applied_commit hdb' rfl rfl fun t' ht' => .inr (hunseen t' ht')
    obtain rfl := Except.ok.inj hdb''
    refine Prog.wp_of_invariant (I := fun w' : World => w.db.webhooksApplied < w'.db.webhooksApplied)
      (fun s w' h => lt_of_lt_of_le h ?_) _ _ hgrows
    exact (exec_audits i s w').sublist.countP_le

/-- **A spent delivery moves nothing.** -/
theorem spent_unmoved {raw : String} (h : Spent H raw w.db) (signature : String)
    (answers : List Answer) :
    Unmoved w.db (Server.serve H (.webhook raw signature) answers w i).store.db := by
  have hquiet : ∀ w' : World, Unmoved w.db w'.db → Unmoved w.db (w'.rollback i).db := by
    intro w' hw'
    refine ⟨(rollback_txns i w').trans hw'.1, ?_⟩
    unfold DB.webhooksApplied
    rw [rollback_audits]
    exact hw'.2
  refine Server.serve_spec (Q := fun w' _ _ => Unmoved w.db w'.db) answers ?_
  refine razorpay_webhook_wp (fun _ w' hw' _ => hquiet w' hw') fun d t auth provider hacc => ?_
  rcases h d hacc.parsed t hacc.found with ⟨t', ht', hid⟩ | htarget
  · exact absurd hid (hacc.checks.unseen t' ht')
  · rw [applyEvent_refused htarget]
    exact hquiet w ⟨rfl, rfl⟩

/-- An accepted delivery that is not spent is applied. -/
theorem unspent_moved {raw signature : String} {d : Delivery} {t : ProviderTransaction}
    {auth : BoundedAuthorization} {provider : RazorpayAdapter}
    (hacc : Accepts H raw signature w.db d t auth provider)
    (hpayment : d.target = .CAPTURED → ∃ p, bindText d.event.payment_id = some p)
    (htarget : d.target ∈ TRANSITION_TABLE t.state) (answers : List Answer) :
    ¬ Unmoved w.db (Server.serve H (.webhook raw signature) answers w i).store.db := by
  have hgrows : w.db.webhooksApplied <
      (Server.serve H (.webhook raw signature) answers w i).store.db.webhooksApplied := by
    refine Server.serve_spec (Q := fun w' _ _ => w.db.webhooksApplied < w'.db.webhooksApplied)
      answers ?_
    have hkeeps : ∀ w' : World, w.db.webhooksApplied < w'.db.webhooksApplied →
        w.db.webhooksApplied < (w'.rollback i).db.webhooksApplied := by
      intro w' hw'
      unfold DB.webhooksApplied
      rw [rollback_audits]
      exact hw'
    refine razorpay_webhook_wp (fun hno => absurd hacc (hno d t auth provider)) ?_
    intro d' t' auth' provider' hacc'
    obtain rfl : d' = d := Option.some.inj (hacc'.parsed.symm.trans hacc.parsed)
    obtain rfl : t' = t := Option.some.inj (hacc'.found.symm.trans hacc.found)
    exact Prog.wp_mono (fun w' _ _ => hkeeps w')
      (applyEvent_applied htarget hpayment hacc'.checks.unseen)
  exact fun h => absurd h.2 (by omega)

end

end Paari
