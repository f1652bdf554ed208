import Paari.Origins

/-!
# Labels carried through

A request that works on a payment knows its intent from the first row it reads. `carrying` is
the discipline it keeps from there on: all it commits is of this payment, and every event
tells its origin. The origins are given from outside, as `L`: a request that reads a database
with other ones, or one that is not wired, is off the record, and in a run no request ever is.
-/

namespace Paari

open Atomic

/-- How far a request has got: it read what no run shows it, it works on no payment at all,
on none yet, or on this one. -/
inductive Course
  | off
  | aside
  | idle
  | on (id : String)

/-- The origins of the intents are these. -/
def Charted (L : String → Origin) (db : DB) : Prop := ∀ o ∈ db.origins, L o.1 = o.2

structure Shown (L : String → Origin) (db : DB) : Prop where
  charted : Charted L db
  wired : Wired db

namespace Course

/-- A database a run may show the request. -/
def Ready (L : String → Origin) (db : DB) : Course → Prop
  | .on id => Shown L db ∧ id ∈ db.ids
  | _ => Shown L db

/-- The phase after a read. -/
def Reads (L : String → Origin) (q : Course) (db : DB) (q' : Course) : Prop :=
  q' = q ∨ q' = .off ∧ ¬q.Ready L db ∨ ∃ id ∈ db.ids, q' = .on id ∧ q ≠ .aside

/-- What a request may commit. -/
def Allows (L : String → Origin) (ws : List Write) : Course → Prop
  | .off => True
  | .aside => ∀ x ∈ ws, x.payment = none
  | .idle => (∀ x ∈ ws, x.Silent) ∨ ∃ i, Opens i ws
  | .on id => (∀ x ∈ ws, x.Silent) ∨ ∀ x ∈ ws, x.Tells (L id) id

end Course

/-- Handlers that tell the origin of the payment they work on. -/
def carrying (L : String → Origin) : Protocol World Stmt Call Answer Course where
  stmt q s w q' := match s with
    | .select => q.Reads L w.db q'
    | .commit ws => q.Allows L ws ∧
        (q' = q ∨ w.accepts ws = true ∧ q = .idle ∧ ∃ i, Opens i ws ∧ q' = .on i.intent_id)
    | _ => q' = q
  call q _ _ q' := q' = q

/-- The part stays in its phase, and what it returns meets `R`. -/
def Handler.Carries {α : Type} (L : String → Origin) (q : Course) (R : α → Prop) (p : Handler α) : Prop :=
  p.Conforms (carrying L) (fun a q' => q' = .off ∨ q' = q ∧ R a) q

section
variable {H : Host} {L : String → Origin} {α β : Type} {R : β → Prop} {R' : α → Prop} {q : Course}
  {id : String} {P : Write → Prop}

/-- Off the record, anything goes. -/
theorem carries_off (p : Handler β) : p.Conforms (carrying L) (fun _ q => q = .off) .off := by
  induction p with
  | ret a => exact rfl
  | halt => trivial
  | stmt s k ih =>
    intro w
    refine ⟨.off, ?_, ih w⟩
    cases s with
    | select => exact .inl rfl
    | commit ws => exact ⟨trivial, .inl rfl⟩
    | _ => exact rfl
  | call c k ih => exact fun a => ⟨.off, rfl, ih a⟩

theorem carries_lost (p : Handler β) : p.Conforms (carrying L) (fun b q' => q' = .off ∨ q' = q ∧ R b) .off :=
  Prog.conforms_mono (fun _ _ h => .inl h) (carries_off p)

theorem carries_bind {p : Handler α} {k : α → Handler β} (hp : p.Carries L q R')
    (hk : ∀ a, R' a → (k a).Carries L q R) : (p >>= k).Carries L q R := by
  refine Prog.conforms_seq hp fun a q' h => ?_
  rcases h with rfl | ⟨rfl, ha⟩
  · exact carries_lost _
  · exact hk a ha

/-- Parts that only write what the phase allows. -/
theorem carries_of_writes (hP : ∀ ws : List Write, (∀ x ∈ ws, P x) → q.Allows L ws) {p : Handler β}
    (h : p.Writes P R) : p.Carries L q R := by
  induction p with
  | ret a => exact .inr ⟨rfl, h⟩
  | halt => trivial
  | stmt s k ih =>
    intro w
    obtain ⟨_, hs, hk⟩ := h w
    refine ⟨q, ?_, ih w hk⟩
    cases s with
    | select => exact .inl rfl
    | commit ws => exact ⟨hP ws fun x hx => hs ws rfl x hx, .inl rfl⟩
    | _ => exact rfl
  | call c k ih =>
    intro a
    obtain ⟨_, _, hk⟩ := h a
    exact ⟨q, rfl, ih a hk⟩

theorem tells_query {Post : β → Course → Prop} {f : DB → α} {k : α → Handler β}
    (h : ∀ db, (k (f db)).Conforms (carrying L) Post q) :
    (Handler.query f >>= k).Conforms (carrying L) Post q :=
  fun w => ⟨q, .inl rfl, h w.db⟩

/-- A read that a run may have shown the request. -/
theorem tells_ready {Post : β → Course → Prop} (hoff : ∀ b, Post b .off) {f : DB → α}
    {k : α → Handler β} (h : ∀ db, q.Ready L db → (k (f db)).Conforms (carrying L) Post q) :
    (Handler.query f >>= k).Conforms (carrying L) Post q := by
  intro w
  by_cases hready : q.Ready L w.db
  · exact ⟨q, .inl rfl, h w.db hready⟩
  · refine ⟨.off, .inr (.inl ⟨rfl, hready⟩), Prog.conforms_mono (fun b q' hq' => ?_) (carries_off _)⟩
    rw [hq']
    exact hoff b

theorem tells_record {Post : β → Course → Prop} {s : Session} {a : AuditArgs}
    {k : Session → Handler β}
    (h : ∀ e : AuditEvent, e.kind = a.kind → e.detail = a.detail →
      (k (s ++ [.insertAudit e])).Conforms (carrying L) Post q) :
    (record_audit H s a >>= k).Conforms (carrying L) Post q :=
  fun _ => ⟨q, .inl rfl, h _ rfl rfl⟩

theorem tells_commit {Post : β → Course → Prop} {ws : Session} {k : Unit → Handler β}
    (hws : q.Allows L ws) (h : (k ()).Conforms (carrying L) Post q) :
    (Handler.commit ws >>= k).Conforms (carrying L) Post q := by
  exact Handler.conforms_commit fun w => ⟨q, ⟨hws, .inl rfl⟩, fun _ _ => h⟩

theorem carries_reads {p : Handler α} {k : α → Handler β} (hp : p.Reads R')
    (hk : ∀ a, R' a → (k a).Carries L q R) : (p >>= k).Carries L q R := by
  refine carries_bind (carries_of_writes (P := fun _ => False) (fun ws hws => ?_)
    (Handler.writes_of_reads hp)) hk
  cases q with
  | off => trivial
  | aside => exact fun x hx => (hws x hx).elim
  | idle => exact .inl fun x hx => (hws x hx).elim
  | on id => exact .inl fun x hx => (hws x hx).elim

theorem carries_of_reads {p : Handler β} (hp : p.Reads R) : p.Carries L q R := by
  have hret : (p >>= Prog.ret).Carries L q R := carries_reads hp fun _ ha => .inr ⟨rfl, ha⟩
  rwa [Prog.bind_ret] at hret

theorem allows_tells {ws : List Write} (h : ∀ x ∈ ws, x.Tells (L id) id) :
    (Course.on id).Allows L ws := .inr h

theorem allows_rowless {ws : List Write} (h : ∀ x ∈ ws, x.payment = none) :
    Course.aside.Allows L ws := h

theorem allows_silent {ws : List Write} (h : ∀ x ∈ ws, x.Silent) : Course.idle.Allows L ws := .inl h

/-- A session that has only burnt proofs so far. -/
theorem Session.OnlyProofs.tells {s : Session} (h : s.OnlyProofs) (o : Origin) (id : String) :
    s.All (Write.Tells o id) := by
  intro x hx
  obtain ⟨p, rfl⟩ := h x hx
  exact Write.tells_of_row rfl fun _ heq => Write.noConfusion heq

theorem Session.OnlyProofs.silent {s : Session} (h : s.OnlyProofs) : s.All Write.Silent := by
  intro x hx
  obtain ⟨p, rfl⟩ := h x hx
  exact ⟨rfl, fun _ heq => Write.noConfusion heq⟩

theorem tells_audit {o : Origin} {e : AuditEvent} (he : e.Tells o) : (Write.insertAudit e).Tells o id :=
  Write.tells_of_row rfl fun _ heq => Write.insertAudit.inj heq ▸ he

theorem silent_audit {e : AuditEvent} (he : e.Mute) : (Write.insertAudit e).Silent :=
  ⟨rfl, fun _ heq => Write.insertAudit.inj heq ▸ he⟩

theorem tells_update {o : Origin} {l c : ProviderTransaction} (hl : l.authorization_id = id) :
    (Write.updateTxn l c).Tells o id where
  intent _ heq := Write.noConfusion heq
  authorization _ heq := Write.noConfusion heq
  txn _ heq := Write.noConfusion heq
  update _ _ heq := (Write.updateTxn.inj heq).1 ▸ hl
  audit _ heq := Write.noConfusion heq

theorem tells_txn {o : Origin} {u : BoundedAuthorization}
    (hu : u.authorization_id = id ∧ u.intent_id = id) :
    (Write.insertTxn (record_provider_txn u)).Tells o id where
  intent _ heq := Write.noConfusion heq
  authorization _ heq := Write.noConfusion heq
  txn _ heq := Write.insertTxn.inj heq ▸ hu
  update _ _ heq := Write.noConfusion heq
  audit _ heq := Write.noConfusion heq

theorem tells_authorization {o : Origin} {u : BoundedAuthorization}
    (hu : u.authorization_id = id ∧ u.intent_id = id) : (Write.insertAuthorization u).Tells o id where
  intent _ heq := Write.noConfusion heq
  authorization _ heq := Write.insertAuthorization.inj heq ▸ hu
  txn _ heq := Write.noConfusion heq
  update _ _ heq := Write.noConfusion heq
  audit _ heq := Write.noConfusion heq

/-- The labels of an intent that exists. -/
theorem causal_labels_ready {db : DB} (h : (Course.on id).Ready L db) :
    causal_labels db id = (L id).labels := by
  obtain ⟨⟨hcharted, -⟩, hid⟩ := h
  obtain ⟨p, hp, rfl⟩ := List.mem_map.mp hid
  obtain ⟨j, hj, rfl⟩ := List.mem_map.mp hp
  unfold causal_labels
  cases hfind : db.intents.find? fun i => i.intent_id == j.intent_id with
  | none =>
    have hnone := List.find?_eq_none.mp hfind j hj
    exact absurd (beq_self_eq_true _) hnone
  | some i =>
    have hkey : i.intent_id = j.intent_id := by simpa using List.find?_some hfind
    have horigin : L i.intent_id = i.origin :=
      hcharted _ (List.mem_map_of_mem (List.mem_of_find?_eq_some hfind))
    show _ = (L j.intent_id).labels
    rw [← hkey, horigin]
    rfl

/-! ## Rows -/

/-- The row of one payment: named after its intent. -/
structure Orm.Pays (id : String) (r : Orm) : Prop where
  of : r.Of id
  intent : r.cur.intent_id = id

variable {r r' : Orm}

theorem Orm.Pays.set (h : r.Pays id) {f : ProviderTransaction → ProviderTransaction}
    (hkey : (f r.cur).authorization_id = r.cur.authorization_id := by rfl)
    (hintent : (f r.cur).intent_id = r.cur.intent_id := by rfl) : (r.set f).Pays id :=
  ⟨h.of.set hkey, hintent.trans h.intent⟩

theorem Orm.Pays.fail (h : r.Pays id) (text : String) : (r.fail text).Pays id := h.set rfl rfl

theorem Orm.Pays.move (h : r.Pays id) {to_state : TxnState} (hm : r.move to_state = .ok r') :
    r'.Pays id := by
  obtain ⟨-, rfl⟩ := Orm.move_ok hm
  exact ⟨⟨h.of.loaded, h.of.cur⟩, h.intent⟩

theorem Orm.Pays.write (h : r.Pays id) (o : Origin) : r.write.Tells o id := tells_update h.of.loaded

/-- A row of a wired database. -/
theorem pays_of_mem {db : DB} {t : ProviderTransaction} (h : Wired db) (ht : t ∈ db.txns) :
    t.intent_id ∈ db.ids ∧ (Orm.fresh t).Pays t.intent_id := by
  obtain ⟨hkey, hid⟩ := h.carriers (t.authorization_id, t.intent_id) (List.mem_map_of_mem ht)
  exact ⟨hid, ⟨hkey, hkey⟩, rfl⟩

theorem carries_loadTxn {k : Orm → Handler β} (h : ∀ row : Orm, row.Pays id → (k row).Carries L (.on id) R) :
    (loadTxn id >>= k).Carries L (.on id) R := by
  show ((Handler.query (fun db => db.txns.find? fun t => t.authorization_id == id) >>= loadedTxn)
    >>= k).Carries L _ _
  rw [Prog.bind_assoc]
  refine tells_ready (fun _ => .inl rfl) fun db hready => ?_
  cases hfind : db.txns.find? fun t => t.authorization_id == id with
  | none => trivial
  | some t =>
    have hkey : t.authorization_id = id := by simpa using List.find?_some hfind
    obtain ⟨-, hrow⟩ := pays_of_mem hready.1.wired (List.mem_of_find?_eq_some hfind)
    have hid : t.intent_id = id := by rw [← hkey]; exact hrow.of.cur.symm
    exact h _ (hid ▸ hrow)

/-- An event of a payment's own row. -/
theorem carries_audit_txn {s : Session} {t : ProviderTransaction} {kind : String}
    {detail : List (String × Json)} {k : Session → Handler β}
    (h : ∀ e : AuditEvent, e.kind = kind → e.detail = detail →
      (k (s ++ [.insertAudit e])).Carries L q R) : (audit_txn H s t kind detail >>= k).Carries L q R :=
  fun _ => ⟨q, .inl rfl, fun _ => ⟨q, .inl rfl, fun _ => ⟨q, .inl rfl, h _ rfl rfl⟩⟩⟩

end

/-! ## Confirming a capture -/

section
variable {H : Host} {L : String → Origin} {o : Origin} {id : String} {s : Session} {row : Orm}
  {auth : BoundedAuthorization} {provider : RazorpayAdapter}

/-- An event without labels, where none are due. -/
theorem tells_unlabelled {e : AuditEvent} {kind : String} {detail : List (String × Json)}
    (hkind : e.kind = kind) (he : e.detail = detail) (h : e.Changes → e.Bare)
    (htool : kind ≠ "llm_tool_call" := by decide) (hbase : Unlabelled detail = true := by rfl) :
    (Write.insertAudit e).Tells o id :=
  tells_audit (tells_bare (mute_of_unlabelled (fun heq => htool (hkind.symm.trans heq)) hbase he) h)

/-- An event that tells of no state. -/
theorem changes_of_pair {e : AuditEvent} {detail : List (String × Json)} (he : e.detail = detail)
    (hpair : pairOf detail = none) : e.Changes → e.Bare := fun hchanges =>
  absurd hchanges (not_changes ((congrArg pairOf he).trans hpair))

theorem Session.All.tell (hs : s.All (Write.Tells o id)) {e : AuditEvent}
    (he : (Write.insertAudit e).Tells o id) : Session.All (Write.Tells o id) (s ++ [.insertAudit e]) :=
  hs.append (Session.all_one he)

/-- Parts whose writes are all of the payment. -/
theorem carries_tells {α β : Type} {R : β → Prop} {R' : α → Prop} {p : Handler α} {k : α → Handler β}
    (hp : p.Writes (Write.Tells (L id) id) R') (hk : ∀ a, R' a → (k a).Carries L (.on id) R) :
    (p >>= k).Carries L (.on id) R :=
  carries_bind (carries_of_writes (fun _ => allows_tells) hp) hk

theorem commitState_carries (hs : s.All (Write.Tells (L id) id)) (hrow : row.Pays id) :
    (commitState s row).Carries L (.on id) fun _ => True :=
  carries_of_writes (fun _ => allows_tells) (commitState_writes hs (hrow.write (L id)))

theorem rejectConfirmation_carries (hrow : row.Pays id) (text : String)
    {detail : List (String × Json)}
    (hbase : Unlabelled (detail ++ [("stage", .str "capture_confirmation")]) = true)
    (hpair : pairOf (detail ++ [("stage", .str "capture_confirmation")]) = none) :
    (rejectConfirmation H row text detail).Carries L (.on id) fun _ => True :=
  carries_audit_txn fun e hkind he =>
    commitState_carries
      (Session.all_nil.tell (tells_unlabelled hkind he (changes_of_pair he hpair) (by decide) hbase))
      (hrow.fail text)

theorem confirmPaid_carries (hrow : row.Pays id) (p : PaymentFields) :
    (confirmPaid H row auth p).Carries L (.on id) fun _ => True := by
  unfold confirmPaid
  split
  · trivial
  · exact rejectConfirmation_carries hrow _ rfl rfl
  split
  · exact rejectConfirmation_carries hrow _ rfl rfl
  dsimp only
  split
  · exact .inr ⟨rfl, trivial⟩
  · next moved hm =>
    split
    · trivial
    · refine carries_audit_txn fun e hkind he => commitState_carries ?_ ((hrow.move hm).set rfl rfl)
      refine Session.all_nil.tell (tells_unlabelled hkind he (fun _ => .inl ?_) (by decide) rfl)
      rw [hkind]
      decide

theorem confirmFailed_carries (hrow : row.Pays id) (p : PaymentFields) :
    (confirmFailed H row p).Carries L (.on id) fun _ => True := by
  unfold confirmFailed
  dsimp only
  split
  · exact .inr ⟨rfl, trivial⟩
  · next moved hm =>
    refine carries_audit_txn fun e hkind he => commitState_carries ?_ ((hrow.move hm).fail _)
    refine Session.all_nil.tell (tells_unlabelled hkind he (fun _ => .inl ?_) (by decide) rfl)
    rw [hkind]
    decide

theorem confirm_capture_carries (hrow : row.Pays id) :
    (confirm_capture H provider row).Carries L (.on id) fun _ => True := by
  refine tells_query fun db => ?_
  split
  · exact .inr ⟨rfl, trivial⟩
  refine carries_tells (read_payment_writes _) fun payment _ => ?_
  split
  · exact commitState_carries Session.all_nil (hrow.fail _)
  split
  · exact .inr ⟨rfl, trivial⟩
  split
  · trivial
  split
  · exact confirmPaid_carries hrow _
  split
  · exact confirmFailed_carries hrow _
  · exact .inr ⟨rfl, trivial⟩

/-! ## Reconciling -/

/-- What `reconcile_one` leaves of a payment's row and of its session. -/
def LeftBy (o : Origin) (id : String) : Except Raised Reconciled → Prop
  | .error raised => raised.pending.All (Write.Tells o id) ∧ ∀ r, raised.row = some r → r.Pays id
  | .ok result => result.pending.All (Write.Tells o id) ∧ ∀ r, result.row = some r → r.Pays id

theorem leftBy_return (hs : s.All (Write.Tells o id)) (hrow : row.Pays id) (status : String) :
    LeftBy o id (reconcileReturn s row status) :=
  ⟨hs, fun _ h => Option.some.inj h ▸ hrow⟩

theorem leftBy_raised (hs : s.All (Write.Tells o id)) (hrow : row.Pays id) (e : Exc) :
    LeftBy o id (.error ⟨e, some row, s⟩) :=
  ⟨hs, fun _ h => Option.some.inj h ▸ hrow⟩

theorem reconcileCommit_carries (hs : s.All (Write.Tells (L id) id)) (hrow : row.Pays id)
    (status : String) : (reconcileCommit s row status).Carries L (.on id) (LeftBy (L id) id) :=
  carries_bind (commitState_carries hs hrow) fun _ _ =>
    .inr ⟨rfl, Session.all_nil, fun _ h => absurd h (by simp)⟩

theorem reconcileExit_carries (hs : s.All (Write.Tells (L id) id)) (hrow : row.Pays id)
    {to_state : TxnState} (hto : to_state.word ∈ ["CANCELLED", "EXPIRED", "DECLINED"])
    {key : String} (hkey : key ∉ LABELS) (ref : Json) :
    (reconcileExit H s row to_state (key, ref)).Carries L (.on id) (LeftBy (L id) id) := by
  unfold reconcileExit
  dsimp only
  split
  · exact .inr ⟨rfl, leftBy_return hs hrow _⟩
  · next moved hm =>
    refine carries_audit_txn fun e hkind he => reconcileCommit_carries ?_ (hrow.move hm) _
    refine hs.tell (tells_unlabelled hkind he (fun _ => .inr ⟨hkind, ?_⟩) (by decide) ?_)
    · exact ⟨(row.cur.state.word, to_state.word), congrArg pairOf he, hto⟩
    · refine List.all_eq_true.mpr fun kv hkv => ?_
      simp only [List.mem_cons, List.not_mem_nil, or_false] at hkv
      rcases hkv with rfl | rfl | rfl | rfl
      · rfl
      · rfl
      · simpa using hkey
      · rfl

theorem rejectPayment_carries (hs : s.All (Write.Tells (L id) id)) (hrow : row.Pays id)
    (p : PaymentFields) (text : String) :
    (rejectPayment H s row auth p text).Carries L (.on id) (LeftBy (L id) id) :=
  carries_audit_txn fun _ hkind he =>
    reconcileCommit_carries (hs.tell (tells_unlabelled hkind he (changes_of_pair he rfl) (by decide) rfl))
      (hrow.fail text) _

theorem finishAdoption_carries (hs : s.All (Write.Tells (L id) id)) (hrow : row.Pays id)
    (target : TxnState) (p : PaymentFields) :
    (finishAdoption s row target p).Carries L (.on id) (LeftBy (L id) id) := by
  unfold finishAdoption
  split
  · split
    · trivial
    · exact reconcileCommit_carries hs (hrow.set rfl rfl) _
  · exact reconcileCommit_carries hs hrow _

theorem adopt_payment_carries (hs : s.All (Write.Tells (L id) id)) (hrow : row.Pays id)
    (p : PaymentFields) :
    (adopt_payment H s row auth p).Carries L (.on id) (LeftBy (L id) id) := by
  unfold adopt_payment
  split
  · exact .inr ⟨rfl, leftBy_return hs hrow _⟩
  split
  · exact .inr ⟨rfl, leftBy_raised hs hrow _⟩
  · exact rejectPayment_carries hs hrow _ _
  split
  · exact rejectPayment_carries hs hrow _ _
  split
  · exact finishAdoption_carries hs hrow _ _
  split
  · exact .inr ⟨rfl, leftBy_return hs hrow _⟩
  · next moved hm =>
    -- the labels are those of the row's own intent
    refine tells_ready (fun _ => .inl rfl) fun db hready => carries_audit_txn fun e hkind he => ?_
    rw [hrow.intent, causal_labels_ready hready] at he
    have htells : e.Tells (L id) := tells_labels (by rw [hkind]; decide) (by rfl) he
    exact finishAdoption_carries (hs.tell (tells_audit htells)) (hrow.move hm) _ _

theorem adopt_status_carries (hs : s.All (Write.Tells (L id) id)) (hrow : row.Pays id)
    (payment : Json) :
    (adopt_status H s row auth payment).Carries L (.on id) (LeftBy (L id) id) := by
  unfold adopt_status
  split
  · exact .inr ⟨rfl, leftBy_raised hs hrow _⟩
  split
  · exact reconcileExit_carries hs hrow (by decide) (by decide) _
  · exact adopt_payment_carries hs hrow _

theorem reconcile_payment_carries (hs : s.All (Write.Tells (L id) id)) (hrow : row.Pays id)
    (payment : Json) :
    (reconcile_payment H s provider row auth payment).Carries L (.on id) (LeftBy (L id) id) := by
  have hadopt : (adopt_status H s row auth payment).Carries L (.on id) (LeftBy (L id) id) :=
    adopt_status_carries hs hrow payment
  unfold reconcile_payment
  split
  · exact hadopt
  refine carries_tells (fetch_order_writes _) fun order _ => ?_
  dsimp only
  split
  · exact hadopt
  split
  · split
    · exact reconcileExit_carries hs hrow (by decide) (by decide) _
    split
    · exact reconcileExit_carries hs hrow (by decide) (by decide) _
    · exact hadopt
  · exact .inr ⟨rfl, leftBy_raised hs hrow _⟩
  · exact .inr ⟨rfl, leftBy_raised hs hrow _⟩

theorem reconcile_read_carries (hs : s.All (Write.Tells (L id) id)) (hrow : row.Pays id) :
    (reconcile_read H s provider row auth).Carries L (.on id) (LeftBy (L id) id) := by
  refine carries_tells (read_payment_writes _) fun payment _ => ?_
  split
  · exact reconcileCommit_carries hs (hrow.fail _) _
  split
  · exact reconcileCommit_carries hs hrow _
  · exact reconcile_payment_carries hs hrow _

theorem reconcile_row_carries (hs : s.All (Write.Tells (L id) id)) (hrow : row.Pays id) :
    (reconcile_row H s row).Carries L (.on id) (LeftBy (L id) id) := by
  unfold reconcile_row
  split
  · exact .inr ⟨rfl, leftBy_return hs hrow _⟩
  refine tells_query fun db => ?_
  split
  · exact .inr ⟨rfl, leftBy_return hs hrow _⟩
  refine tells_query fun db' => ?_
  split
  · exact reconcileCommit_carries hs (hrow.fail _) _
  split
  · refine carries_tells (fetch_order_writes _) fun found _ => ?_
    split
    · exact .inr ⟨rfl, leftBy_raised hs hrow _⟩
    split
    · exact reconcile_read_carries hs hrow
    split
    · exact .inr ⟨rfl, leftBy_raised hs hrow _⟩
    split
    · exact reconcile_read_carries hs hrow
    split
    · trivial
    · exact reconcile_read_carries hs (hrow.set rfl rfl)
  · exact reconcile_read_carries hs hrow

/-! ## The worker -/

theorem commit_carries (hs : s.All (Write.Tells (L id) id)) (hrow : row.Pays id) :
    (Handler.commit (s ++ [row.write])).Carries L (.on id) fun _ => True :=
  carries_of_writes (fun _ => allows_tells)
    (commit_writes (hs.append (Session.all_one (hrow.write (L id)))))

theorem dead_letter_carries (n : Int) (hs : s.All (Write.Tells (L id) id)) (hrow : row.Pays id) :
    (dead_letter H n s row).Carries L (.on id) fun _ => True := by
  unfold dead_letter
  dsimp only
  have hcounted : (row.set fun t => { t with attempts := t.attempts + 1 }).Pays id := hrow.set rfl rfl
  split
  · exact commit_carries hs hcounted
  split
  · exact commit_carries hs (hcounted.fail _)
  · next moved hm =>
    refine carries_audit_txn fun e hkind he => commit_carries ?_ ((hcounted.move hm).fail _)
    refine hs.tell (tells_unlabelled hkind he (fun _ => .inl ?_) (by decide) rfl)
    rw [hkind]
    decide

theorem batch_row_carries (n : Int) (hrow : row.Pays id) :
    (batch_row H n row).Carries L (.on id) fun _ => True := by
  refine carries_bind (reconcile_row_carries Session.all_nil hrow) fun result hresult => ?_
  cases result with
  | error raised =>
    obtain ⟨hs, hafter⟩ := hresult
    refine commit_carries hs (Orm.Pays.fail ?_ _)
    cases hr : raised.row with
    | none => exact hrow
    | some r => exact hafter r hr
  | ok r =>
    obtain ⟨hs, hafter⟩ := hresult
    dsimp only
    split
    · exact .inr ⟨rfl, trivial⟩
    split
    · next after hr => exact dead_letter_carries n hs (hafter after hr)
    · rw [hrow.of.cur]
      exact carries_loadTxn fun after hafter' => dead_letter_carries n hs hafter'

/-! ## Whole requests -/

/-- The part keeps the discipline from this phase on. -/
def Handler.Starts {α : Type} (L : String → Origin) (q : Course) (p : Handler α) : Prop :=
  p.Conforms (carrying L) (fun _ _ => True) q

variable {α β : Type} {R' : α → Prop} {q : Course}

theorem starts_of_carries {R : β → Prop} {p : Handler β} (h : p.Carries L q R) : p.Starts L q :=
  Prog.conforms_mono (fun _ _ _ => trivial) h

theorem starts_bind {p : Handler α} {k : α → Handler β} (hp : p.Carries L q R')
    (hk : ∀ a, R' a → (k a).Starts L q) : (p >>= k).Starts L q := by
  refine Prog.conforms_seq hp fun a q' h => ?_
  rcases h with rfl | ⟨rfl, ha⟩
  · exact Prog.conforms_mono (fun _ _ _ => trivial) (carries_off _)
  · exact hk a ha

theorem starts_now {k : Instant → Handler β} (h : ∀ t, (k t).Starts L q) :
    (Handler.now >>= k).Starts L q :=
  fun w => ⟨q, .inl rfl, h w.clock⟩

theorem starts_fresh {k : Nat → Handler β} (h : ∀ n, (k n).Starts L q) :
    (Handler.fresh >>= k).Starts L q :=
  fun w => ⟨q, rfl, h w.next⟩

theorem starts_reserve {spend : Spend} {k : Bool → Handler β} (h : ∀ b, (k b).Starts L q) :
    (Handler.reserve id spend >>= k).Starts L q :=
  fun _ => ⟨q, rfl, h _⟩

theorem Course.Ready.shown {db : DB} (h : q.Ready L db) : Shown L db := by
  cases q with
  | on id => exact h.1
  | _ => exact h

/-- A read that shows which payment the request is about. -/
theorem starts_enter {f : DB → α} {k : α → Handler β} (hq : q ≠ .aside)
    (h : ∀ db, Shown L db → (k (f db)).Starts L q ∨ ∃ id ∈ db.ids, (k (f db)).Starts L (.on id)) :
    (Handler.query f >>= k).Starts L q := by
  intro w
  by_cases hready : q.Ready L w.db
  · rcases h w.db hready.shown with hk | ⟨id, hid, hk⟩
    · exact ⟨q, .inl rfl, hk⟩
    · exact ⟨.on id, .inr (.inr ⟨id, hid, rfl, hq⟩), hk⟩
  · exact ⟨.off, .inr (.inl ⟨rfl, hready⟩), Prog.conforms_mono (fun _ _ _ => trivial) (carries_off _)⟩

theorem starts_authenticated {k : Authenticated → Handler Reply} {ctx : RequestContext}
    {token : String} {expected : Option String}
    (hk : ∀ a : Authenticated, a.pending.OnlyProofs → (k a).Starts L q) :
    (Handler.attempt (pure (resolve_session_token H token ctx.authorization)) fun token =>
      Handler.attempt (authenticate H ctx token expected) k).Starts L q := by
  cases htoken : resolve_session_token H token ctx.authorization with
  | error e => trivial
  | ok token =>
    show (Handler.attempt (authenticate H ctx token expected) k).Starts L q
    refine starts_bind (carries_of_reads (authenticate_reads H ctx token expected)) fun r hr => ?_
    cases r with
    | error e => trivial
    | ok a => exact hk a (hr a rfl)

/-! ### Reconciliation, by hand and by the worker -/

theorem reconcile_one_starts (hs : s.OnlyProofs) (authorization_id : String)
    {k : Except Raised Reconciled → Handler Reply} (hk : ∀ r q, (k r).Starts L q) :
    (reconcile_one H s authorization_id >>= k).Starts L .idle := by
  unfold reconcile_one
  rw [Prog.bind_assoc]
  refine starts_enter nofun fun db hshown => ?_
  cases hfind : db.txns.find? fun t => t.authorization_id == authorization_id with
  | none => exact .inl (hk _ _)
  | some t =>
    obtain ⟨hid, hrow⟩ := pays_of_mem hshown.wired (List.mem_of_find?_eq_some hfind)
    exact .inr ⟨_, hid, starts_bind (reconcile_row_carries (hs.tells _ _) hrow) fun _ _ => hk _ _⟩

theorem manual_reconcile_starts (ctx : RequestContext) (authorization_id token : String) :
    (manual_reconcile H ctx authorization_id token).Starts L .idle := by
  refine tells_query fun db => ?_
  split
  · trivial
  refine starts_authenticated fun a ha => ?_
  refine reconcile_one_starts ha _ fun r q => ?_
  cases r with
  | error e => trivial
  | ok r => trivial

theorem loadTxn_starts {authorization_id : String} {k : Orm → Handler β} (hq : q ≠ .aside)
    (hk : ∀ id row, row.Pays id → (k row).Starts L (.on id)) :
    (loadTxn authorization_id >>= k).Starts L q := by
  unfold loadTxn
  rw [Prog.bind_assoc]
  refine starts_enter hq fun db hshown => ?_
  cases hfind : db.txns.find? fun t => t.authorization_id == authorization_id with
  | none => exact .inl trivial
  | some t =>
    obtain ⟨hid, hrow⟩ := pays_of_mem hshown.wired (List.mem_of_find?_eq_some hfind)
    exact .inr ⟨_, hid, hk _ _ hrow⟩

/-- One payment after another. -/
theorem batch_rest_starts (n : Int) : ∀ (rows : List ProviderTransaction) {q : Course}, q ≠ .aside →
    (batch_rest H n rows >>= fun _ => pure Reply.done).Starts L q := by
  intro rows
  induction rows with
  | nil => intro q _; trivial
  | cons t rows ih =>
    intro q hq
    unfold batch_rest
    rw [Prog.bind_assoc]
    refine loadTxn_starts hq fun id row hrow => ?_
    rw [Prog.bind_assoc]
    exact starts_bind (batch_row_carries n hrow) fun _ _ => ih nofun

theorem run_batch_starts (n : Int) : (run_batch H n).Starts L .idle := by
  unfold run_batch
  refine starts_enter nofun fun db hshown => ?_
  cases hrows : db.txns.filter fun t => decide (t.state ∉ TERMINAL_STATES) with
  | nil => exact .inl trivial
  | cons t rest =>
    have ht : t ∈ db.txns := by
      have hmem : t ∈ db.txns.filter fun t => decide (t.state ∉ TERMINAL_STATES) := by
        rw [hrows]
        exact List.mem_cons_self
      exact (List.mem_filter.mp hmem).1
    obtain ⟨hid, hrow⟩ := pays_of_mem hshown.wired ht
    refine .inr ⟨_, hid, starts_bind (batch_row_carries n hrow) fun _ _ => ?_⟩
    exact batch_rest_starts n rest nofun

/-! ### Provider events and refunds -/

theorem rejectEvent_starts {kind org_id : String} {detail : List (String × Json)} {reply : Reply}
    (htool : kind ≠ "llm_tool_call" := by decide) (hbase : Unlabelled detail = true := by rfl) :
    (rejectEvent H auth kind org_id detail reply).Starts L (.on id) := by
  refine tells_record fun e hkind he => tells_commit (.inl fun x hx => ?_) trivial
  obtain rfl := List.mem_singleton.mp hx
  exact silent_audit (mute_of_unlabelled (fun heq => htool (hkind.symm.trans heq)) hbase he)

theorem applyEvent_starts (hrow : row.Pays id) (e : WebhookEvent) (event_id : String)
    (target : TxnState) : (applyEvent H provider row auth e event_id target).Starts L (.on id) := by
  unfold applyEvent
  dsimp only
  split
  · trivial
  next moved hm =>
  split
  · trivial
  next payment_id _ =>
  have hset := (hrow.move hm).set
    (f := fun t => { t with webhook_event_id := some event_id, razorpay_payment_id := payment_id }) rfl rfl
  refine tells_query fun db => tells_ready (fun _ => trivial) fun db' hready => ?_
  refine tells_record fun a hkind ha => tells_commit (allows_tells ?_) ?_
  · have hkind : a.kind = "webhook_applied" := hkind
    rw [hset.intent, causal_labels_ready hready] at ha
    have htells : a.Tells (L id) := tells_labels (by rw [hkind]; decide) (by rfl) ha
    exact (Session.all_one (tells_audit htells)).append (Session.all_one (hset.write _))
  · refine loadTxn_starts nofun fun id' row' hrow' => ?_
    split
    · exact starts_bind (confirm_capture_carries hrow') fun _ _ => trivial
    · trivial

theorem checkEvent_starts (hrow : row.Pays id) (raw : String) (e : WebhookEvent) :
    (checkEvent H provider raw row auth e).Starts L (.on id) := by
  refine tells_query fun db => ?_
  split
  · trivial
  · exact rejectEvent_starts (by decide) rfl
  split
  · refine tells_query fun db' => ?_
    split
    · trivial
    split
    · trivial
    split
    · trivial
    · exact rejectEvent_starts (by decide) rfl
    · exact applyEvent_starts hrow _ _ _
  · trivial

theorem razorpay_webhook_starts (raw signature : String) :
    (razorpay_webhook H raw signature).Starts L .idle := by
  unfold razorpay_webhook
  split
  · trivial
  split
  · trivial
  split
  · trivial
  next e _ =>
  split
  · trivial
  next order_id _ =>
  refine starts_enter nofun fun db hshown => .inl (tells_query fun db' => ?_)
  split
  · trivial
  next provider _ =>
  split
  · trivial
  split
  · trivial
  next order_id _ _ =>
  refine starts_enter nofun fun db₂ hshown₂ => ?_
  cases hfound : txnByOrder db₂ order_id with
  | none => exact .inl trivial
  | some found =>
    obtain ⟨hid, hrow⟩ := pays_of_mem hshown₂.wired (List.mem_of_find?_eq_some hfound)
    refine .inr ⟨_, hid, tells_query fun db₃ => ?_⟩
    split
    · trivial
    refine checkEvent_starts ?_ _ _
    -- the row the session already held is the same payment's
    show (Orm.fresh (identity ((some order_id).bind (txnByOrder db)) found)).Pays found.intent_id
    unfold identity
    split
    · next t ht =>
      split
      · next hkey =>
        obtain ⟨-, hheld⟩ := pays_of_mem hshown.wired (List.mem_of_find?_eq_some ht)
        have hsame : t.intent_id = found.intent_id := by
          rw [← hheld.of.cur, ← hrow.of.cur]
          exact hkey
        rwa [hsame] at hheld
      · exact hrow
    · exact hrow

theorem record_refund_starts (hs : s.All (Write.Tells (L id) id)) (hrow : row.Pays id)
    (auth : Option BoundedAuthorization) (amount : Int) (result : Json) :
    (record_refund H s row auth amount result).Starts L (.on id) := by
  unfold record_refund
  dsimp only
  split
  · trivial
  next moved hm =>
  refine tells_query fun db => tells_ready (fun _ => trivial) fun db' hready => ?_
  refine tells_record fun a hkind ha => tells_commit (allows_tells ?_) ?_
  · have hkind : a.kind = "refund_issued" := hkind
    rw [(hrow.move hm).intent, causal_labels_ready hready] at ha
    have htells : a.Tells (L id) := tells_labels (by rw [hkind]; decide) (by rfl) ha
    exact (hs.tell (tells_audit htells)).append (Session.all_one ((hrow.move hm).write _))
  · refine loadTxn_starts nofun fun id' row' hrow' => ?_
    split <;> trivial

theorem refund_authorization_starts (ctx : RequestContext) (authorization_id : String)
    (req : RefundRequest) : (refund_authorization H ctx authorization_id req).Starts L .idle := by
  refine starts_enter nofun fun db hshown => ?_
  cases hfind : db.txns.find? fun t => t.authorization_id == authorization_id with
  | none => exact .inl trivial
  | some t =>
  obtain ⟨hid, hrow⟩ := pays_of_mem hshown.wired (List.mem_of_find?_eq_some hfind)
  refine .inr ⟨_, hid, starts_authenticated fun a ha => ?_⟩
  have hs := ha.tells (L t.intent_id) t.intent_id
  dsimp only
  split
  · trivial
  split
  · trivial
  refine tells_query fun db' => ?_
  split
  · trivial
  refine tells_query fun db'' => ?_
  split
  · trivial
  next provider _ =>
  have hrefund : ∀ payment_id amount, (provider.refund H payment_id amount).Writes
      (Write.Tells (L t.intent_id) t.intent_id) fun _ => True := by
    intro payment_id amount
    unfold RazorpayAdapter.refund
    split
    · trivial
    · exact request_writes provider _
  refine starts_bind (carries_of_writes (fun _ => allows_tells) (hrefund _ _)) fun result _ => ?_
  split
  · exact tells_commit (allows_tells (hs.append (Session.all_one ((hrow.fail _).write _)))) trivial
  · exact record_refund_starts hs hrow _ _ _

/-! ### Consuming, and burning -/

theorem countAttempt_tells {txn : Option ProviderTransaction}
    (hkey : auth.authorization_id = id ∧ auth.intent_id = id)
    (htxn : ∀ t, txn = some t → t.authorization_id = id) :
    (countAttempt auth txn).All (Write.Tells o id) := by
  unfold countAttempt
  split
  · next t => exact Session.all_one (tells_update (htxn t rfl))
  · refine Session.all_cons ?_ (Session.all_one (tells_update hkey.1))
    exact tells_txn hkey

theorem consume_authorization_starts (ctx : RequestContext) (authorization_id token : String) :
    (consume_authorization H ctx authorization_id token).Starts L .idle := by
  refine starts_enter nofun fun db hshown => ?_
  cases hfind : db.authorizations.find? fun a => a.authorization_id == authorization_id with
  | none => exact .inl trivial
  | some auth =>
  have hauth : auth.authorization_id = authorization_id := by simpa using List.find?_some hfind
  obtain ⟨hkey, hid⟩ := hshown.wired.grants (auth.authorization_id, auth.intent_id)
    (List.mem_map_of_mem (List.mem_of_find?_eq_some hfind))
  have hkey : auth.authorization_id = auth.intent_id := hkey
  refine .inr ⟨auth.intent_id, hid, starts_authenticated fun a ha => ?_⟩
  refine starts_bind (carries_of_reads (revalidate_execution_reads H auth)) fun r _ => ?_
  cases r with
  | error e => trivial
  | ok agent =>
  refine starts_reserve fun reserved => ?_
  split
  · exact fun w => ⟨_, rfl, trivial⟩
  refine tells_query fun db' => tells_commit (allows_tells ?_) ?_
  · refine (ha.tells _ _).append (countAttempt_tells ⟨hkey, rfl⟩ fun t ht => ?_)
    have htxn : t.authorization_id = authorization_id := by simpa using List.find?_some ht
    rw [htxn, ← hauth, hkey]
  refine tells_query fun db'' => tells_ready (fun _ => trivial) fun db₃ hready => ?_
  rw [causal_labels_ready hready]
  refine starts_of_carries (carries_of_writes (fun _ => allows_tells) (execute_marks ⟨?_, ?_⟩))
  · exact fun l c hl => tells_update (hl.trans hkey)
  · exact fun e base _ hkind hbase he => tells_audit (tells_labels hkind hbase he)

theorem revoke_authorization_starts (ctx : RequestContext) (authorization_id token : String) :
    (revoke_authorization H ctx authorization_id token).Starts L .idle := by
  refine tells_query fun db => ?_
  split
  · trivial
  refine starts_authenticated fun a ha => starts_reserve fun burned => ?_
  split
  · exact fun w => ⟨_, rfl, trivial⟩
  refine tells_record fun e hkind he => tells_commit (.inl ?_) trivial
  have hkind : e.kind = "authorization_revoked" := hkind
  have hmute : e.Mute := mute_of_unlabelled (by rw [hkind]; decide) (by rfl) he
  exact ha.silent.append (Session.all_one (silent_audit hmute))

/-! ### Minting -/

theorem mint_carries (intent : PaymentIntent) :
    (mint_bounded_authorization H intent).Carries L q fun u =>
      u.authorization_id = intent.intent_id ∧ u.intent_id = intent.intent_id :=
  fun _ => ⟨q, .inl rfl, fun _ => ⟨q, .inl rfl, .inr ⟨rfl, rfl, rfl⟩⟩⟩

/-- The event of a minting: from `AUTHORIZED` to `AUTHORIZED`, or of no state. -/
theorem mintedAudit_tells {agent : Agent} {transaction_id : String} {parent_id : Option String}
    {u : BoundedAuthorization} {states : List (String × Json)} {i : PaymentIntent}
    (hi : i.origin.Sound) {e : AuditEvent}
    (hkind : e.kind = (mintedAudit H agent transaction_id parent_id u states i.llm.detail).kind)
    (he : e.detail = (mintedAudit H agent transaction_id parent_id u states i.llm.detail).detail)
    (hstates : states = [] ∨
      states = [("previous_state", .str "AUTHORIZED"), ("current_state", .str "AUTHORIZED")]) :
    e.Tells i.origin := by
  have hkind : e.kind = "authorization_minted" := hkind
  refine tells_stored hi hkind he (by decide) ?_ ?_
  · rcases hstates with rfl | rfl <;> rfl
  · rcases hstates with rfl | rfl
    · exact not_changes ((congrArg pairOf he).trans rfl)
    · intro ⟨p, hp, hne⟩
      have hpair : e.pair = some ("AUTHORIZED", "AUTHORIZED") := (congrArg pairOf he).trans rfl
      rw [hpair] at hp
      obtain rfl := Option.some.inj hp
      exact hne rfl

theorem verify_mfa_challenge_starts (req : MFAVerifyRequest) :
    (verify_mfa_challenge H req).Starts L .idle := by
  refine starts_enter nofun fun db hshown => ?_
  cases hfind : (db.intents.find? fun i => i.intent_id == req.intent_id).filter
      PaymentIntent.awaitsStepUp with
  | none => exact .inl trivial
  | some i =>
  have hi : i ∈ db.intents := List.mem_of_find?_eq_some (Option.filter_eq_some_iff.mp hfind).1
  have hmem : (i.intent_id, i.origin) ∈ db.origins := List.mem_map_of_mem hi
  have hL : L i.intent_id = i.origin := hshown.charted _ hmem
  have hsound : i.approve.origin.Sound := hshown.wired.sound _ hmem
  refine .inr ⟨i.intent_id, List.mem_map_of_mem hmem, ?_⟩
  refine tells_query fun db₂ => starts_now fun now => ?_
  split
  · trivial
  refine tells_query fun db₃ => ?_
  split
  · trivial
  refine tells_query fun db₄ => ?_
  split
  · trivial
  split
  · trivial
  · trivial
  refine starts_bind (mint_carries _) fun u hu => ?_
  refine tells_record fun e hkind he => tells_record fun e' hkind' he' => ?_
  refine tells_commit (allows_tells ?_) trivial
  have hkind : e.kind = "mfa_verified" := hkind
  have htells : e.Tells i.approve.origin := by
    refine tells_stored hsound hkind he (by decide) (by rfl) ?_
    exact not_changes ((congrArg pairOf he).trans rfl)
  have htells' : e'.Tells i.approve.origin := mintedAudit_tells hsound hkind' he' (.inl rfl)
  rw [hL]
  refine Session.All.append (Session.All.append ?_ (Session.all_one (tells_audit htells)))
    (Session.all_one (tells_audit htells'))
  refine Session.all_cons (Write.tells_of_row rfl fun _ heq => Write.noConfusion heq)
    (Session.all_cons (Write.tells_of_row rfl fun _ heq => Write.noConfusion heq) ?_)
  exact Session.all_cons (tells_authorization hu) (Session.all_one (tells_txn hu))

/-! ### Submitting an intent -/

/-- The event that says where the request came from, and the one that says what was decided. -/
theorem proposedAudit_tells {agent : Agent} {req : PaymentIntentRequest} {parent_id : Option String}
    {intent_id : String} {e : AuditEvent}
    (hkind : e.kind = (proposedAudit agent req parent_id intent_id).kind)
    (he : e.detail = (proposedAudit agent req parent_id intent_id).detail) :
    e.Tells ⟨req.llm, llm_attributed req.llm⟩ := by
  unfold proposedAudit at hkind he
  by_cases hattr : llm_attributed req.llm = true
  · rw [if_pos hattr] at hkind he
    refine ⟨fun _ hchanges => ?_, fun hnot => ?_⟩
    · exact absurd hchanges (not_changes ((congrArg pairOf he).trans rfl))
    · exact absurd (hattr.symm.trans hnot) nofun
  · rw [if_neg hattr] at hkind he
    have hkind : e.kind = "payment_proposed" := hkind
    exact tells_bare (mute_of_unlabelled (by rw [hkind]; decide) (by rfl) he)
      (changes_of_pair he rfl)

theorem decidedAudit_tells {agent : Agent} {req : PaymentIntentRequest} {v : Verdict}
    {parent_id : Option String} {intent_id : String} {e : AuditEvent}
    (hsound : Origin.Sound ⟨req.llm, llm_attributed req.llm⟩)
    (hkind : e.kind = (decidedAudit agent req v parent_id intent_id).kind)
    (he : e.detail = (decidedAudit agent req v parent_id intent_id).detail) :
    e.Tells ⟨req.llm, llm_attributed req.llm⟩ := by
  have hkind : e.kind = "intent_decided" := hkind
  exact tells_stored hsound hkind he (by decide) (by rfl) (not_changes ((congrArg pairOf he).trans rfl))

/-- The request asks for a payment whose labels are normalized. -/
abbrev PaymentIntentRequest.Sound (req : PaymentIntentRequest) : Prop :=
  Origin.Sound ⟨req.llm, llm_attributed req.llm⟩

/-- `_record_intent` leaves the request working on the intent it returns. -/
def WorksOn (L : String → Origin) (i : PaymentIntent) (q : Course) : Prop :=
  q = .off ∨ q = .on i.intent_id ∧ L i.intent_id = i.origin ∧ i.origin.Sound

/-- The commit that records the intent, or loses to another request's. -/
theorem conforms_opens {ws : Session} {i : PaymentIntent} {Post : β → Course → Prop}
    {k : Except Write Unit → Handler β} (hopens : Opens i ws)
    (hok : (k (.ok ())).Conforms (carrying L) Post (.on i.intent_id))
    (herror : ∀ x, (k (.error x)).Conforms (carrying L) Post .idle) :
    (Handler.tryCommit ws >>= k).Conforms (carrying L) Post .idle := by
  intro w
  show ∃ q', _ ∧ (k ((w.db.applyAll ws).map fun _ => ())).Conforms (carrying L) Post q'
  cases hdb : w.db.applyAll ws with
  | ok db' => exact ⟨_, ⟨.inr ⟨i, hopens⟩, .inr ⟨accepts_ok hdb, rfl, i, hopens, rfl⟩⟩, hok⟩
  | error x => exact ⟨_, ⟨.inr ⟨i, hopens⟩, .inl rfl⟩, herror x⟩

/-- An intent of a database that a run shows. -/
theorem Shown.recorded {db : DB} (h : Shown L db) {i : PaymentIntent} (hi : i ∈ db.intents) :
    i.intent_id ∈ db.ids ∧ WorksOn L i (.on i.intent_id) := by
  have hmem : (i.intent_id, i.origin) ∈ db.origins := List.mem_map_of_mem hi
  exact ⟨List.mem_map_of_mem hmem, .inr ⟨rfl, h.charted _ hmem, h.wired.sound _ hmem⟩⟩

theorem worksOn_off (p : Handler PaymentIntent) : p.Conforms (carrying L) (WorksOn L) .off :=
  Prog.conforms_mono (fun _ _ h => .inl h) (carries_off p)

/-- What a lost race goes on to, by the row of the request that was first. -/
def firstIntent : Option PaymentIntent → Handler PaymentIntent
  | some existing => return existing
  | none => .halt

theorem record_intent_conforms (hs : s.OnlyProofs) (agent : Agent) {req : PaymentIntentRequest}
    (hreq : req.Sound) (v : Verdict) :
    (record_intent H s agent req v).Conforms (carrying L) (WorksOn L) .idle := by
  -- the clock, the fresh number and the parent
  refine fun w => ⟨.idle, .inl rfl, fun w₁ => ⟨.idle, rfl, fun w₂ => ⟨.idle, .inl rfl, ?_⟩⟩⟩
  refine tells_record fun e hkind he => tells_record fun e' hkind' he' => ?_
  refine conforms_opens (i := intentRow agent req v (H.uuid4 w₁.next) (v.now.getD w.clock))
    ⟨hreq, ?_, ?_⟩ ?_ fun x => ?_
  · simp
  · intro x hx
    simp only [List.append_assoc, List.mem_append, List.mem_singleton] at hx
    rcases hx with hx | rfl | rfl | rfl
    · obtain ⟨p, rfl⟩ := hs x hx
      exact .inr ⟨rfl, fun _ heq => Write.noConfusion heq⟩
    · exact .inl rfl
    · exact .inr ⟨rfl, fun _ heq => Write.insertAudit.inj heq ▸ proposedAudit_tells hkind he⟩
    · exact .inr ⟨rfl, fun _ heq => Write.insertAudit.inj heq ▸ decidedAudit_tells hreq hkind' he'⟩
  · -- recorded: the row is there to be read
    intro w₅
    by_cases hready : Course.Ready L w₅.db (.on (H.uuid4 w₁.next))
    · refine ⟨_, .inl rfl, ?_⟩
      obtain ⟨hshown, hid⟩ := hready
      obtain ⟨p, hp, hkey⟩ := List.mem_map.mp hid
      obtain ⟨j, hj, rfl⟩ := List.mem_map.mp hp
      show WorksOn L ((w₅.db.intents.find? fun i => i.intent_id == H.uuid4 w₁.next).getD _) _
      cases hfind : w₅.db.intents.find? fun i => i.intent_id == H.uuid4 w₁.next with
      | none =>
        have hnone := List.find?_eq_none.mp hfind j hj
        exact absurd (beq_iff_eq.mpr hkey) hnone
      | some i =>
        have hsame : i.intent_id = H.uuid4 w₁.next := by simpa using List.find?_some hfind
        show WorksOn L i (.on (H.uuid4 w₁.next))
        rw [← hsame]
        exact (hshown.recorded (List.mem_of_find?_eq_some hfind)).2
    · exact ⟨.off, .inr (.inl ⟨rfl, hready⟩), worksOn_off _⟩
  · split
    · next heq => exact absurd heq nofun
    · -- the row of the request that was first
      intro w₅
      by_cases hready : Course.Ready L w₅.db .idle
      · cases hfind : w₅.db.intents.find? fun i =>
            i.agent_id == agent.agent_id && i.idempotency_key == req.idempotency_key with
        | none =>
          refine ⟨_, .inl rfl, ?_⟩
          show Prog.Conforms _ _ (firstIntent (w₅.db.intents.find? _)) _
          rw [hfind]
          trivial
        | some i =>
          obtain ⟨hid, hrec⟩ := Shown.recorded hready (List.mem_of_find?_eq_some hfind)
          refine ⟨_, .inr (.inr ⟨i.intent_id, hid, rfl, nofun⟩), ?_⟩
          show Prog.Conforms _ _ (firstIntent (w₅.db.intents.find? _)) _
          rw [hfind]
          exact hrec
      · exact ⟨.off, .inr (.inl ⟨rfl, hready⟩), worksOn_off _⟩
    · trivial

/-- What follows the recording of an intent. -/
theorem starts_recorded (hs : s.OnlyProofs) {agent : Agent} {req : PaymentIntentRequest}
    (hreq : req.Sound) {v : Verdict} {k : PaymentIntent → Handler β}
    (hk : ∀ i : PaymentIntent, L i.intent_id = i.origin → i.origin.Sound →
      (k i).Starts L (.on i.intent_id)) :
    (record_intent H s agent req v >>= k).Starts L .idle := by
  refine Prog.conforms_seq (record_intent_conforms hs agent hreq v) fun i q h => ?_
  rcases h with rfl | ⟨rfl, hL, hsound⟩
  · exact Prog.conforms_mono (fun _ _ _ => trivial) (carries_off _)
  · exact hk i hL hsound

theorem deny_starts (hs : s.OnlyProofs) (agent : Agent) {req : PaymentIntentRequest}
    (hreq : req.Sound) (check : String) (reasons : List String) :
    (deny H s agent req check reasons).Starts L .idle :=
  starts_recorded hs hreq fun _ _ _ => trivial

theorem allow_starts (hs : s.OnlyProofs) (agent : Agent) (parent : ParentAuthority)
    {req : PaymentIntentRequest} (hreq : req.Sound) (now : Instant) (results : List PolicyResult) :
    (allow H s agent parent req now results).Starts L .idle := by
  refine starts_recorded hs hreq fun i hL hsound => starts_bind (mint_carries i) fun u hu => ?_
  refine tells_record fun e hkind he => tells_commit (allows_tells ?_) trivial
  have htells : e.Tells (L i.intent_id) := by
    rw [hL]
    exact mintedAudit_tells hsound hkind he (.inr rfl)
  exact Session.all_cons (tells_authorization hu)
    (Session.all_cons (tells_txn hu) (Session.all_one (tells_audit htells)))

theorem decide_intent_starts (hs : s.OnlyProofs) (agent : Agent) (parent : ParentAuthority)
    {req : PaymentIntentRequest} (hreq : req.Sound) (now : Instant) (d : MandateDecision) :
    (decide_intent H s agent parent req now d).Starts L .idle := by
  refine tells_query fun db => ?_
  dsimp only
  split
  · exact starts_recorded hs hreq fun _ _ _ => trivial
  · exact allow_starts hs agent parent hreq now _

theorem submit_payment_intent_starts (ctx : RequestContext) (req : PaymentIntentRequest) :
    (submit_payment_intent H ctx req).Starts L .idle := by
  refine starts_authenticated fun a hs => ?_
  have hreq : ∀ mandate_id, PaymentIntentRequest.Sound
      { req with mandate_id := mandate_id, llm := req.llm.normalize H } :=
    fun _ => normalize_sound H req.llm
  dsimp only
  split
  · trivial
  refine starts_now fun now => tells_query fun db => ?_
  split
  · exact tells_query fun db' => trivial
  refine tells_query fun db' => ?_
  split
  · exact deny_starts hs _ (hreq _) _ _
  split
  · exact deny_starts hs _ (hreq _) _ _
  split
  · trivial
  · exact deny_starts hs _ (hreq _) _ _
  split
  · trivial
  have hmandate := @evaluate_mandate_writes H (fun x => ∃ p, x = .insertProof p) _ hs
  refine starts_bind (carries_of_writes (fun ws hws => ?_) (hmandate _ _ _ _)) fun r hr => ?_
  · exact allows_silent (Session.OnlyProofs.silent hws)
  have hr : r.2.OnlyProofs := hr
  dsimp only
  split
  · exact deny_starts hr _ (hreq _) _ _
  split
  · exact deny_starts hr _ (hreq _) _ _
  split
  · exact deny_starts hr _ (hreq _) _ _
  · exact decide_intent_starts hr _ _ (hreq _) _ _

theorem request_mfa_challenge_starts (ctx : RequestContext) (req : MFAChallengeRequest) :
    (request_mfa_challenge H ctx req).Starts L .idle := by
  refine tells_query fun db => ?_
  split
  · trivial
  refine starts_authenticated fun a ha => ?_
  dsimp only
  split
  · trivial
  refine starts_now fun now => starts_fresh fun n => starts_fresh fun n' => ?_
  refine tells_commit (.inl (ha.silent.append ?_)) trivial
  exact Session.all_cons ⟨rfl, fun _ heq => Write.noConfusion heq⟩
    (Session.all_one ⟨rfl, fun _ heq => Write.noConfusion heq⟩)

/-! ### The sweep -/

theorem expireMandates_silent : ∀ (rows : List UserPaymentMandate) {s : Session},
    s.All Write.Silent → (expireMandates H s rows).Writes Write.Silent fun s' => s'.All Write.Silent := by
  intro rows
  induction rows with
  | nil => intro s hs; exact hs
  | cons m rows ih =>
    intro s hs
    refine writes_event fun e hkind he _ => ih ?_
    have hkind : e.kind = "user_mandate_expired" := hkind
    have hmute : e.Mute := mute_of_unlabelled (by rw [hkind]; decide) (by rfl) he
    refine Session.All.append (hs.append (Session.all_one ?_)) (Session.all_one (silent_audit hmute))
    exact ⟨rfl, fun _ heq => Write.noConfusion heq⟩

theorem expireReviews_silent : ∀ (rows : List PaymentIntent) {s : Session},
    s.All Write.Silent → (expireReviews H s rows).Writes Write.Silent fun s' => s'.All Write.Silent := by
  intro rows
  induction rows with
  | nil => intro s hs; exact hs
  | cons i rows ih =>
    intro s hs
    refine writes_event fun e hkind he _ => ih ?_
    have hkind : e.kind = "intent_review_expired" := hkind
    have hmute : e.Mute := mute_of_unlabelled (by rw [hkind]; decide) (by rfl) he
    refine Session.All.append (hs.append (Session.all_one ?_)) (Session.all_one (silent_audit hmute))
    exact ⟨rfl, fun _ heq => Write.noConfusion heq⟩

theorem sweep_mandate_lifecycle_starts (key : String) :
    (sweep_mandate_lifecycle H key).Starts L .idle := by
  have hmandates : (sweep_expired_mandates H).Writes Write.Silent fun _ => True := by
    refine Handler.writes_now fun now => Handler.writes_query fun rows => ?_
    refine Handler.writes_bind (expireMandates_silent rows Session.all_nil) fun s hs => ?_
    split
    · exact Handler.writes_commit hs trivial
    · trivial
  have hreviews : (expire_stale_reviews H).Writes Write.Silent fun _ => True := by
    refine Handler.writes_now fun now => Handler.writes_query fun rows => ?_
    refine Handler.writes_bind (expireReviews_silent rows Session.all_nil) fun s hs => ?_
    split
    · exact Handler.writes_commit hs trivial
    · trivial
  refine starts_of_carries (carries_of_writes (fun _ => allows_silent) (writes_admin ?_))
  exact Handler.writes_bind hmandates fun _ _ => Handler.writes_bind hreviews fun _ _ => trivial

end

/-- The requests whose events may be about payments. -/
def Request.pays : Request → Bool
  | .submit_intent _ _ | .mfa_challenge _ _ | .mfa_verify _ | .consume _ _ _
  | .revoke_authorization _ _ _ | .webhook _ _ | .refund _ _ _ | .reconcile _ _ _ | .batch _
  | .sweep _ => true
  | _ => false

def Request.course (r : Request) : Course := if r.pays then .idle else .aside

theorem Request.Allows.rowless {r : Request} (hr : r.pays = false) {x : Write} (h : r.Allows x) :
    x.payment = none := by
  rcases h with (⟨e, rfl⟩ | ⟨p, rfl⟩) | h
  · rfl
  · rfl
  · cases x with
    | insertIntent i => cases r <;> simp [Request.mayWrite, Write.Enrols, Request.pays] at h hr
    | insertAuthorization u => cases r <;> simp [Request.mayWrite, Write.Enrols, Request.pays] at h hr
    | insertTxn t => cases r <;> simp [Request.mayWrite, Write.Enrols, Request.pays] at h hr
    | updateTxn l c => cases r <;> simp [Request.mayWrite, Write.Enrols, Request.pays] at h hr
    | _ => rfl

/-- **Every request keeps the discipline.** -/
theorem handler_carrying (H : Host) (L : String → Origin) (r : Request) :
    (handler H r).Starts L r.course := by
  have haside : r.pays = false → (handler H r).Starts L .aside := fun hr =>
    starts_of_carries (carries_of_writes (P := r.Allows)
      (fun _ hws => allows_rowless fun x hx => Request.Allows.rowless hr (hws x hx))
      (handler_writes H r))
  cases r with
  | submit_intent ctx req => exact submit_payment_intent_starts ctx req
  | mfa_challenge ctx req => exact request_mfa_challenge_starts ctx req
  | mfa_verify req => exact verify_mfa_challenge_starts req
  | consume ctx id token => exact consume_authorization_starts ctx id token
  | revoke_authorization ctx id token => exact revoke_authorization_starts ctx id token
  | webhook raw signature => exact razorpay_webhook_starts raw signature
  | refund ctx id req => exact refund_authorization_starts ctx id req
  | reconcile ctx id token => exact manual_reconcile_starts ctx id token
  | batch n => exact run_batch_starts n
  | sweep key => exact sweep_mandate_lifecycle_starts key
  | _ => exact haside rfl

end Paari
