import Paari.Desk

/-!
# Reconciliation keeps to the desk

One lemma per part of a handler: from any desk, whatever the database holds and
whatever the providers answer, the part takes only allowed steps. The postcondition
of a part says what its caller finds on the desk. Here: the two readers of payments,
`confirm_capture` and `reconcile_one`, and the worker.
-/

namespace Paari

open Atomic

variable {H : Host} {q : Desk}

/-! ## Reading a payment -/

/-- A read for the row was answered with this record. -/
def Desk.ReadBack (q : Desk) (t : ProviderTransaction) (record : Json) : Prop :=
  ∃ call answer, (call, answer) ∈ q.calls ∧ call.op.record answer = some record ∧
    ((∃ id, call.op = .get_payment id ∧ t.razorpay_payment_id = some id) ∨
      ∃ id, call.op = .fetch_payments id ∧ t.razorpay_order_id = some id)

theorem Desk.ReadBack.ext {q' : Desk} {t : ProviderTransaction} {record : Json}
    (h : q.ReadBack t record) (hq : q.Ext q') : q'.ReadBack t record := by
  obtain ⟨call, answer, hc, hr⟩ := h
  exact ⟨call, answer, hq.calls hc, hr⟩

/-- A request that creates no payment. -/
theorem request_conforms (p : RazorpayAdapter) (op : Op) (hop : op.submits = none) :
    (p.request H op).Conforms (desk H)
      (fun a q' => q.Ext q' ∧ ∀ data, a = .ok data → ∃ r, (⟨r, op⟩, a) ∈ q'.calls) q := by
  unfold RazorpayAdapter.request
  split
  · exact ⟨Desk.Ext.refl q, fun data h => absurd h (by simp)⟩
  · refine fun a => ⟨_, ⟨fun id hid => absurd (hop.symm.trans hid) (by simp), rfl⟩, ?_⟩
    exact ⟨Desk.ext_called hop a, fun _ _ => ⟨_, List.mem_append_right _ (List.mem_singleton_self _)⟩⟩

theorem fetch_payments_conforms (p : RazorpayAdapter) (order_id : String) :
    (p.fetch_payments H order_id).Conforms (desk H)
      (fun a q' => q.Ext q' ∧ ∀ record, a.bind lastOrNone = .ok record →
        ∃ r answer, (⟨r, .fetch_payments order_id⟩, answer) ∈ q'.calls ∧
          (Op.fetch_payments order_id).record answer = some record) q := by
  refine Prog.conforms_seq (request_conforms p (.fetch_payments order_id) rfl) ?_
  rintro a q' ⟨hq, hc⟩
  refine ⟨hq, fun record hrec => ?_⟩
  cases a with
  | error e => exact absurd hrec (by simp [Except.bind])
  | ok data =>
    obtain ⟨r, hr⟩ := hc _ rfl
    refine ⟨r, _, hr, ?_⟩
    show ((Except.bind _ _).bind _).toOption = _
    rw [hrec]
    rfl

theorem fetch_order_by_receipt_conforms (p : RazorpayAdapter) (receipt : String) :
    (p.fetch_order_by_receipt H receipt).Conforms (desk H) (fun _ q' => q.Ext q') q :=
  Prog.conforms_seq (request_conforms p (.fetch_order_by_receipt receipt) rfl) fun _ _ h => h.1

/-- A column that holds something. -/
theorem present_some {s : Option String} (h : present s = true) : ∃ x, s = some x := by
  cases s with
  | none => simp [present] at h
  | some x => exact ⟨x, rfl⟩

theorem read_payment_conforms (p : RazorpayAdapter) (t : ProviderTransaction) :
    (read_payment H p t).Conforms (desk H)
      (fun a q' => q.Ext q' ∧ ∀ record, a = .ok record → record.truthy = true →
        q'.ReadBack t record) q := by
  unfold read_payment
  split
  · next hpid =>
    obtain ⟨id, hid⟩ := present_some hpid
    refine Prog.conforms_mono ?_ (request_conforms p (.get_payment _) rfl)
    rintro a q' ⟨hq, hc⟩
    refine ⟨hq, ?_⟩
    rintro record rfl _
    obtain ⟨r, hr⟩ := hc _ rfl
    exact ⟨_, _, hr, rfl, .inl ⟨_, rfl, by simp [hid]⟩⟩
  · split
    · next hoid =>
      obtain ⟨id, hid⟩ := present_some hoid
      refine Prog.conforms_seq (fetch_payments_conforms p _) ?_
      rintro a q' ⟨hq, hc⟩
      refine ⟨hq, fun record hrec _ => ?_⟩
      obtain ⟨r, answer, hr, hrec⟩ := hc record hrec
      exact ⟨_, answer, hr, hrec, .inr ⟨_, rfl, by simp [hid]⟩⟩
    · refine ⟨Desk.Ext.refl q, fun record hrec ht => ?_⟩
      have : record = .null := (Except.ok.inj hrec).symm
      rw [this] at ht
      exact absurd ht (by simp [Json.truthy])

/-- What a read-back says, if the code accepts it, is evidence for the row. -/
theorem Desk.Holds.evidence {row r' : Orm} (hrow : q.Holds H row) {auth : BoundedAuthorization}
    (hauth : auth ∈ q.terms) (hid : auth.authorization_id = row.cur.authorization_id)
    {record : Json} (hread : q.ReadBack row.cur record) {p : PaymentFields}
    (hp : paymentFields H record = .ok p) (hs : p.status = "captured")
    (ham : amountMismatch H auth p.amount = .ok false)
    (hcur : currencyMismatch H auth p.currency = false)
    (horder : r'.cur.razorpay_order_id = row.cur.razorpay_order_id) :
    q.Evidence H row.loaded r'.cur := by
  obtain ⟨call, answer, hc, hrec, hop⟩ := hread
  refine ⟨call, answer, record, auth, hc, ?_, hrec, hauth, hid.trans hrow.sound.key, ?_⟩
  · rcases hop with ⟨id, hop, hpid⟩ | ⟨id, hop, hoid⟩
    · rw [hop]
      exact hrow.payment.symm.trans hpid
    · rw [hop]
      exact horder.trans hoid
  · rcases hop with ⟨id, hop, _⟩ | ⟨id, hop, _⟩ <;> rw [hop] <;> exact ⟨p, hp, hs, ham, hcur⟩

/-! ## Confirming a capture -/

theorem commitState_conforms {pending : Session} (row : Orm) (hp : pending.Light)
    (hmem : row.loaded ∈ q.rows) (hs : q.Sound H row.loaded row.cur) :
    (commitState pending row).Conforms (desk H) (fun _ _ => True) q :=
  desk_commit (Desk.submit_one hp hmem hs) fun _ _ _ _ => desk_loadTxn fun _ _ _ _ _ => trivial

theorem rejectConfirmation_conforms {row : Orm} (h : q.Holds H row) (text : String)
    (detail : List (String × Json)) :
    (rejectConfirmation H row text detail).Conforms (desk H) (fun _ _ => True) q := by
  refine desk_reads (audit_txn_reads _ _ _ _ _) ?_
  rintro s q' hq ⟨e, _, rfl⟩
  have hrow := (h.ext hq).fail text
  exact commitState_conforms _ (Session.light_nil.audit e) hrow.mem hrow.sound

theorem confirmPaid_conforms {row : Orm} (h : q.Holds H row) {auth : BoundedAuthorization}
    (hauth : auth ∈ q.terms) (hid : auth.authorization_id = row.cur.authorization_id)
    {record : Json} (hread : q.ReadBack row.cur record) {p : PaymentFields}
    (hp : paymentFields H record = .ok p) (hs : p.status = "captured") :
    (confirmPaid H row auth p).Conforms (desk H) (fun _ _ => True) q := by
  unfold confirmPaid
  split
  · trivial
  · exact rejectConfirmation_conforms h _ _
  · next ham =>
    split
    · exact rejectConfirmation_conforms h _ _
    · next hcur =>
      split
      · trivial
      · next moved hm =>
        split
        · trivial
        · next payment_id _ =>
          refine desk_reads (audit_txn_reads _ _ _ _ _) ?_
          rintro s q' hq ⟨e, _, rfl⟩
          have hev : ∀ r' : Orm, r'.cur.razorpay_order_id = row.cur.razorpay_order_id →
              q'.Evidence H row.loaded r'.cur := fun r' ho =>
            (h.evidence hauth hid hread hp hs ham (by simpa using hcur) ho).ext hq
          obtain ⟨_, hmoved⟩ := Orm.move_ok hm
          have hsound := (h.ext hq).move hm fun _ => hev moved (by rw [hmoved])
          subst hmoved
          exact commitState_conforms _ (Session.light_nil.audit e) (hq.rows h.mem)
            ⟨hsound.key, hsound.legal,
              fun _ _ => hev ⟨row.loaded, { row.cur with razorpay_payment_id := payment_id }⟩ rfl,
              hsound.order⟩

theorem confirmFailed_conforms {row : Orm} (h : q.Holds H row) (p : PaymentFields) :
    (confirmFailed H row p).Conforms (desk H) (fun _ _ => True) q := by
  unfold confirmFailed
  split
  · trivial
  · next moved hm =>
    refine desk_reads (audit_txn_reads _ _ _ _ _) ?_
    rintro s q' hq ⟨e, _, rfl⟩
    have hsound := (h.ext hq).move hm fun hp => absurd hp (by simp)
    obtain ⟨_, rfl⟩ := Orm.move_ok hm
    exact commitState_conforms _ (Session.light_nil.audit e) (hq.rows h.mem)
      ⟨hsound.key, hsound.legal, fun hp => absurd hp (by simp [Orm.fail, Orm.set]), hsound.order⟩

theorem confirm_capture_conforms {row : Orm} (h : q.Holds H row) (provider : RazorpayAdapter) :
    (confirm_capture H provider row).Conforms (desk H) (fun _ _ => True) q := by
  refine desk_query fun w => ?_
  have hq := Desk.ext_select q w
  split
  · trivial
  · next auth hfind =>
    have hauth : auth ∈ (q.after .select w).terms :=
      List.mem_append_right _ (List.mem_of_find?_eq_some hfind)
    have hid : auth.authorization_id = row.cur.authorization_id := by
      simpa using List.find?_some hfind
    refine Prog.conforms_seq (read_payment_conforms provider row.cur) ?_
    rintro a q' ⟨hq', hread⟩
    have h' := (h.ext hq).ext hq'
    split
    · next e =>
      have hrow := h'.fail ("capture confirmation unavailable: " ++ slice 500 (e.text H.toText))
      exact commitState_conforms _ Session.light_nil hrow.mem hrow.sound
    · next record =>
      split
      · trivial
      · next htruthy =>
        have hread' := hread record rfl (by simpa using htruthy)
        split
        · trivial
        · next p hp =>
          split
          · next hs => exact confirmPaid_conforms h' (hq'.terms hauth) hid hread' hp hs
          · split
            · exact confirmFailed_conforms h' p
            · trivial

/-! ## Reconciling -/

/-- What `reconcile_one` leaves to its caller: light work, and a row in hand, if any. -/
def Desk.Left (H : Host) (q : Desk) : Except Raised Reconciled → Prop
  | .error raised => raised.pending.Light ∧ ∃ row, raised.row = some row ∧ q.Holds H row
  | .ok r => r.pending.Light ∧ ∀ row, r.row = some row → q.Holds H row

theorem reconcileCommit_conforms {pending : Session} (row : Orm) (hp : pending.Light)
    (hmem : row.loaded ∈ q.rows) (hs : q.Sound H row.loaded row.cur) (status : String) :
    (reconcileCommit pending row status).Conforms (desk H) (fun r q' => q'.Left H r) q := by
  unfold reconcileCommit
  refine Prog.conforms_seq (commitState_conforms row hp hmem hs) ?_
  rintro state q' _
  exact ⟨Session.light_nil, fun row h => absurd h (by simp)⟩

theorem reconcileReturn_left {pending : Session} {row : Orm} (hp : pending.Light)
    (h : q.Holds H row) (status : String) : q.Left H (reconcileReturn pending row status) :=
  ⟨hp, fun _ hr => Option.some.inj hr ▸ h⟩

theorem reconcileExit_conforms {pending : Session} {row : Orm} (hp : pending.Light)
    (h : q.Holds H row) {to_state : TxnState} (hto : to_state ≠ .PAID) (ref : String × Json) :
    (reconcileExit H pending row to_state ref).Conforms (desk H) (fun r q' => q'.Left H r) q := by
  unfold reconcileExit
  split
  · exact reconcileReturn_left hp h _
  · next moved hm =>
    refine desk_reads (audit_txn_reads _ _ _ _ _) ?_
    rintro s q' hq ⟨e, _, rfl⟩
    have hsound := (h.ext hq).move hm fun hpaid => absurd hpaid hto
    refine reconcileCommit_conforms _ (hp.audit e) ?_ hsound _
    obtain ⟨_, rfl⟩ := Orm.move_ok hm
    exact hq.rows h.mem

theorem rejectPayment_conforms {pending : Session} {row : Orm} (hp : pending.Light)
    (h : q.Holds H row) (auth : BoundedAuthorization) (p : PaymentFields) (text : String) :
    (rejectPayment H pending row auth p text).Conforms (desk H) (fun r q' => q'.Left H r) q := by
  refine desk_reads (audit_txn_reads _ _ _ _ _) ?_
  rintro s q' hq ⟨e, _, rfl⟩
  have hrow := (h.ext hq).fail text
  exact reconcileCommit_conforms _ (hp.audit e) hrow.mem hrow.sound _

/-- Adopting the payment id: the row is sound with and without it. -/
theorem finishAdoption_conforms {pending : Session} (row : Orm) (hp : pending.Light)
    (hmem : row.loaded ∈ q.rows) (hs : q.Sound H row.loaded row.cur)
    (hset : ∀ id, q.Sound H row.loaded { row.cur with razorpay_payment_id := id })
    (target : TxnState) (p : PaymentFields) :
    (finishAdoption pending row target p).Conforms (desk H) (fun r q' => q'.Left H r) q := by
  unfold finishAdoption
  split
  · split
    · trivial
    · next id _ =>
      exact reconcileCommit_conforms (row.set fun t => { t with razorpay_payment_id := id })
        hp hmem (hset id) _
  · exact reconcileCommit_conforms _ hp hmem hs _

theorem PROVIDER_STATUS_TO_STATE_paid {status : String}
    (h : PROVIDER_STATUS_TO_STATE status = some .PAID) : status = "captured" := by
  unfold PROVIDER_STATUS_TO_STATE at h
  split at h
  · assumption
  · split at h
    · exact absurd h (by simp)
    · split at h <;> exact absurd h (by simp)

theorem adopt_payment_conforms {pending : Session} {row : Orm} (hpend : pending.Light)
    (h : q.Holds H row) {auth : BoundedAuthorization} (hauth : auth ∈ q.terms)
    (hid : auth.authorization_id = row.cur.authorization_id) {record : Json}
    (hread : q.ReadBack row.cur record) {p : PaymentFields}
    (hp : paymentFields H record = .ok p) :
    (adopt_payment H pending row auth p).Conforms (desk H) (fun r q' => q'.Left H r) q := by
  unfold adopt_payment
  split
  · exact reconcileReturn_left hpend h _
  · next target htarget =>
    split
    · exact ⟨hpend, row, rfl, h⟩
    · exact rejectPayment_conforms hpend h _ _ _
    · next ham =>
      split
      · exact rejectPayment_conforms hpend h _ _ _
      · next hcur =>
        split
        · exact finishAdoption_conforms _ hpend h.mem h.sound
            (fun id => h.sound_set (f := fun t => { t with razorpay_payment_id := id }) rfl rfl rfl)
            _ _
        · split
          · exact reconcileReturn_left hpend h _
          · next moved hm =>
            refine desk_query fun w => ?_
            have hq₁ := Desk.ext_select q w
            refine desk_reads (audit_txn_reads _ _ _ _ _) ?_
            rintro s q' hq₂ ⟨e, _, rfl⟩
            have hq := hq₁.trans hq₂
            have hev : target = .PAID → ∀ r' : Orm,
                r'.cur.razorpay_order_id = row.cur.razorpay_order_id →
                q'.Evidence H row.loaded r'.cur := by
              rintro rfl r' ho
              have hs := PROVIDER_STATUS_TO_STATE_paid htarget
              exact (h.evidence hauth hid hread hp hs ham (by simpa using hcur) ho).ext hq
            obtain ⟨_, hmoved⟩ := Orm.move_ok hm
            have hsound := (h.ext hq).move hm fun ht => hev ht moved (by rw [hmoved])
            subst hmoved
            refine finishAdoption_conforms ⟨row.loaded, { row.cur with state := target }⟩
              (hpend.audit e) (hq.rows h.mem) hsound ?_ _ _
            intro id
            exact ⟨hsound.key, hsound.legal,
              fun ht _ => hev ht ⟨row.loaded, { row.cur with razorpay_payment_id := id }⟩ rfl,
              hsound.order⟩

theorem adopt_status_conforms {pending : Session} {row : Orm} (hpend : pending.Light)
    (h : q.Holds H row) {auth : BoundedAuthorization} (hauth : auth ∈ q.terms)
    (hid : auth.authorization_id = row.cur.authorization_id) {payment : Json}
    (hread : q.ReadBack row.cur payment) :
    (adopt_status H pending row auth payment).Conforms (desk H) (fun r q' => q'.Left H r) q := by
  unfold adopt_status
  split
  · exact ⟨hpend, row, rfl, h⟩
  · next p hp =>
    split
    · exact reconcileExit_conforms hpend h (by simp) _
    · exact adopt_payment_conforms hpend h hauth hid hread hp

theorem reconcile_payment_conforms {pending : Session} (provider : RazorpayAdapter) {row : Orm}
    (hpend : pending.Light) (h : q.Holds H row) {auth : BoundedAuthorization}
    (hauth : auth ∈ q.terms) (hid : auth.authorization_id = row.cur.authorization_id)
    {payment : Json} (hread : q.ReadBack row.cur payment) :
    (reconcile_payment H pending provider row auth payment).Conforms (desk H)
      (fun r q' => q'.Left H r) q := by
  unfold reconcile_payment
  split
  · exact adopt_status_conforms hpend h hauth hid hread
  · refine Prog.conforms_seq (fetch_order_by_receipt_conforms provider _) ?_
    · intro a q' hq
      have h' := h.ext hq
      have hadopt := adopt_status_conforms hpend h' (hq.terms hauth) hid (hread.ext hq)
      dsimp only
      split
      · exact hadopt
      · split
        · split
          · exact reconcileExit_conforms hpend h' (by simp) _
          · split
            · exact reconcileExit_conforms hpend h' (by simp) _
            · exact hadopt
        · exact ⟨hpend, row, rfl, h'⟩
        · exact ⟨hpend, row, rfl, h'⟩

theorem reconcile_read_conforms {pending : Session} (provider : RazorpayAdapter) (row : Orm)
    (hpend : pending.Light) (h : q.Holds H row) {auth : BoundedAuthorization}
    (hauth : auth ∈ q.terms) (hid : auth.authorization_id = row.cur.authorization_id) :
    (reconcile_read H pending provider row auth).Conforms (desk H)
      (fun r q' => q'.Left H r) q := by
  unfold reconcile_read
  refine Prog.conforms_seq (read_payment_conforms provider row.cur) ?_
  rintro a q' ⟨hq, hread⟩
  have h' := h.ext hq
  split
  · next e =>
    have hrow := h'.fail (slice 2000 (e.text H.toText))
    exact reconcileCommit_conforms _ hpend hrow.mem hrow.sound _
  · next payment =>
    split
    · exact reconcileCommit_conforms _ hpend h'.mem h'.sound _
    · next htruthy =>
      exact reconcile_payment_conforms provider hpend h' (hq.terms hauth) hid
        (hread payment rfl (by simpa using htruthy))

theorem reconcile_row_conforms {pending : Session} {row : Orm} (hpend : pending.Light)
    (h : q.Holds H row) :
    (reconcile_row H pending row).Conforms (desk H) (fun r q' => q'.Left H r) q := by
  unfold reconcile_row
  split
  · exact reconcileReturn_left hpend h _
  refine desk_query fun w => ?_
  have hq₁ := Desk.ext_select q w
  split
  · exact reconcileReturn_left hpend (h.ext hq₁) _
  next auth hfind =>
  have hauth : auth ∈ (q.after .select w).terms :=
    List.mem_append_right _ (List.mem_of_find?_eq_some hfind)
  have hid : auth.authorization_id = row.cur.authorization_id := by
    have := List.find?_some hfind
    simp only [Bool.and_eq_true, beq_iff_eq] at this
    exact this.1
  refine desk_query fun w' => ?_
  have hq₂ := Desk.ext_select (q.after .select w) w'
  have h₂ := (h.ext hq₁).ext hq₂
  have hauth₂ := hq₂.terms hauth
  split
  · next e _ =>
    have hrow := h₂.fail (slice 2000 (e.text H.toText))
    exact reconcileCommit_conforms _ hpend hrow.mem hrow.sound _
  next provider _ =>
  split
  · next hunknown =>
    refine Prog.conforms_seq (fetch_order_by_receipt_conforms provider _) ?_
    · intro a q' hq
      have h' := h₂.ext hq
      have hplain := reconcile_read_conforms provider row hpend h' (hq.terms hauth₂) hid
      split
      · exact ⟨hpend, row, rfl, h'⟩
      · split
        · exact hplain
        · split
          · exact ⟨hpend, row, rfl, h'⟩
          · split
            · exact hplain
            · split
              · trivial
              · next order_id _ =>
                -- the adopted order id fills an empty column
                refine reconcile_read_conforms provider
                  (row.set fun t => { t with razorpay_order_id := order_id }) hpend
                  ⟨h'.mem, ⟨h'.sound.key, h'.sound.legal, ?_, ?_⟩, h'.steady, h'.payment⟩
                  (hq.terms hauth₂) hid
                · exact fun hp hl => absurd (h'.steady.symm.trans hp) hl
                · rcases h'.sound.order with ho | ho | ho
                  · have hnone : present row.cur.razorpay_order_id = false := by
                      simpa using hunknown.2
                    exact .inr (.inl (ho ▸ hnone))
                  · exact .inr (.inl ho)
                  · exact .inr (.inr ho)
  · exact reconcile_read_conforms provider _ hpend h₂ hauth₂ hid

theorem reconcile_one_conforms {pending : Session} (hpend : pending.Light) (id : String) :
    (reconcile_one H pending id).Conforms (desk H) (fun r q' => q'.Left H r) q := by
  refine desk_query fun w => ?_
  split
  · exact ⟨hpend, fun row h => absurd h (by simp)⟩
  · next t hfind =>
    exact reconcile_row_conforms hpend
      (Desk.holds_fresh (List.mem_append_right _ (List.mem_of_find?_eq_some hfind)))

theorem manual_reconcile_conforms (ctx : RequestContext) (id token : String) :
    (manual_reconcile H ctx id token).Conforms (desk H) (fun _ _ => True) q := by
  refine desk_query fun w => ?_
  split
  · trivial
  refine desk_authenticated fun a q' _ ha => ?_
  refine Prog.conforms_seq (reconcile_one_conforms ha.light id) ?_
  intro r q'' _
  cases r <;> trivial

/-! ## The worker -/

theorem dead_letter_conforms (n : Int) {pending : Session} {row : Orm} (hp : pending.Light)
    (h : q.Holds H row) :
    (dead_letter H n pending row).Conforms (desk H) (fun _ _ => True) q := by
  have h' : q.Holds H (row.set fun t => { t with attempts := t.attempts + 1 }) :=
    h.set rfl rfl rfl rfl
  unfold dead_letter
  dsimp only
  split
  · exact commit_conforms (Desk.submit_one hp h'.mem h'.sound)
  · split
    · have hrow := h'.fail "dead-letter: exceeded max reconcile attempts"
      exact commit_conforms (Desk.submit_one hp hrow.mem hrow.sound)
    · next moved hm =>
      refine desk_reads (audit_txn_reads _ _ _ _ _) ?_
      rintro s q' hq ⟨e, _, rfl⟩
      have hsound := (h'.ext hq).move hm fun hpaid => absurd hpaid (by simp)
      obtain ⟨_, rfl⟩ := Orm.move_ok hm
      exact commit_conforms (Desk.submit_one (hp.audit e) (hq.rows h.mem)
        ⟨hsound.key, hsound.legal, fun hpaid => absurd hpaid (by simp [Orm.fail, Orm.set]),
          hsound.order⟩)

theorem batch_row_conforms (n : Int) {row : Orm} (h : q.Holds H row) :
    (batch_row H n row).Conforms (desk H) (fun _ _ => True) q := by
  refine Prog.conforms_seq (reconcile_row_conforms Session.light_nil h) ?_
  intro r q' hr
  cases r with
  | error raised =>
    obtain ⟨hp, row', hrow', h'⟩ := hr
    have hfail := h'.fail (slice 2000 (raised.exc.text H.toText))
    simp only [hrow', Option.getD_some]
    exact commit_conforms (Desk.submit_one hp hfail.mem hfail.sound)
  | ok r =>
    obtain ⟨hp, hrow⟩ := hr
    dsimp only
    split
    · trivial
    · split
      · next after hafter => exact dead_letter_conforms n hp (hrow after hafter)
      · exact desk_loadTxn fun t q'' _ ht _ => dead_letter_conforms n hp (Desk.holds_fresh ht)

theorem batch_rest_conforms (n : Int) :
    ∀ (rest : List ProviderTransaction) (q : Desk),
      (batch_rest H n rest).Conforms (desk H) (fun _ _ => True) q := by
  intro rest
  induction rest with
  | nil => intro q; trivial
  | cons t rest ih =>
    intro q
    refine desk_loadTxn fun t q' _ ht _ => ?_
    exact Prog.conforms_seq (batch_row_conforms n (Desk.holds_fresh ht)) fun _ q'' _ => ih q''

theorem run_batch_conforms (n : Int) :
    (run_batch H n).Conforms (desk H) (fun _ _ => True) q := by
  refine desk_query fun w => ?_
  split
  · trivial
  · next t rest hrows =>
    have ht : t ∈ (q.after .select w).rows := by
      have hmem : t ∈ w.db.txns.filter fun t => decide (t.state ∉ TERMINAL_STATES) := by
        rw [hrows]
        exact List.mem_cons_self
      exact List.mem_append_right _ (List.mem_of_mem_filter hmem)
    refine Prog.conforms_seq (batch_row_conforms n (Desk.holds_fresh ht)) fun _ q' _ => ?_
    exact Prog.conforms_seq (batch_rest_conforms n rest q') fun _ _ _ => trivial

end Paari
