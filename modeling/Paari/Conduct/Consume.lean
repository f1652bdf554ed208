import Paari.Conduct.Reconcile

/-!
# Consuming and revoking keep to the desk

The long one. A consumer wins the use of its authorization with the commit of its
reservation; after that it may submit it once. The agentic path flushes
`PROVIDER_SUBMITTED` before its capture call and commits once at the end, so every
exception after the flush finds two `UPDATE`s to commit together.
-/

namespace Paari

open Atomic

variable {H : Host} {q : Desk}

/-! ## Consuming: failures -/

/-- `PROVIDER_SUBMITTED` flushed in mid-transaction, from a row on the desk. -/
structure Desk.Flushed (H : Host) (q : Desk) (pending : Session) (l m : ProviderTransaction) :
    Prop where
  updates : updates pending = [(l, m)]
  settles : ∀ w ∈ pending, w.Settles
  mem : l ∈ q.rows
  moved : .PROVIDER_SUBMITTED ∈ TRANSITION_TABLE l.state
  sound : q.Sound H l m
  submitted : m.state = .PROVIDER_SUBMITTED

theorem Desk.Flushed.ext {q' : Desk} {pending : Session} {l m : ProviderTransaction}
    (h : q.Flushed H pending l m) (hq : q.Ext q') : q'.Flushed H pending l m :=
  ⟨h.updates, h.settles, hq.rows h.mem, h.moved, h.sound.ext hq, h.submitted⟩

theorem Desk.Flushed.audit {pending : Session} {l m : ProviderTransaction}
    (h : q.Flushed H pending l m) (e : AuditEvent) :
    q.Flushed H (pending ++ [.insertAudit e]) l m where
  updates := by simp [h.updates]
  settles := by
    intro w hw
    rcases List.mem_append.mp hw with hw | hw
    · exact h.settles w hw
    · rw [List.mem_singleton.mp hw]
      exact .audit e
  mem := h.mem
  moved := h.moved
  sound := h.sound
  submitted := h.submitted

/-- The way out of `AUTHORIZED` or `PROVIDER_UNKNOWN` in one commit. -/
theorem legal_through_submitted {s s' : TxnState}
    (h : .PROVIDER_SUBMITTED ∈ TRANSITION_TABLE s)
    (hs' : s' = .PROVIDER_SUBMITTED ∨ s' = .FAILED ∨ s' = .PROVIDER_UNKNOWN) : Legal s s' := by
  rcases hs' with rfl | rfl | rfl <;> cases s <;> revert h <;> decide

/-- Committing what was flushed, together with a second `UPDATE` of the same row. -/
theorem Desk.Flushed.submit {pending : Session} {l : ProviderTransaction} {row : Orm}
    (h : q.Flushed H pending l row.loaded) (hs : q.Sound H row.loaded row.cur)
    (hend : row.cur.state = .PROVIDER_SUBMITTED ∨ row.cur.state = .FAILED ∨
      row.cur.state = .PROVIDER_UNKNOWN ∨ q.Moved H) :
    q.Submittable H (pending ++ [row.write]) where
  settles := by
    intro w hw
    rcases List.mem_append.mp hw with hw | hw
    · exact h.settles w hw
    · rw [List.mem_singleton.mp hw]
      exact .update _ _
  rows := by
    refine .inr (.inr ⟨l, row.loaded, row.cur, by simp [h.updates], h.mem, ?_, h.sound, hs, ?_⟩)
    · intro hl
      have hm := h.moved
      rw [hl, h.submitted] at hm
      exact absurd hm (by decide)
    · rcases hend with hc | hc | hc | hc
      · exact .inl (legal_through_submitted h.moved (.inl hc))
      · exact .inl (legal_through_submitted h.moved (.inr (.inl hc)))
      · exact .inl (legal_through_submitted h.moved (.inr (.inr hc)))
      · exact .inr hc

/-- What an `except` block finds: nothing flushed, or `PROVIDER_SUBMITTED` flushed and
the row still there or gone on to `CAPTURED`. -/
inductive Desk.Carries (H : Host) (q : Desk) (pending : Session) (row : Orm) : Prop
  | steady (hp : pending.Light) (h : q.Holds H row)
  | flushed (l : ProviderTransaction) (h : q.Flushed H pending l row.loaded)
      (hs : q.Sound H row.loaded row.cur)
      (hstate : row.cur.state = .PROVIDER_SUBMITTED ∨ row.cur.state = .CAPTURED ∧ q.Moved H)

/-- A guarded move to a failure state, whatever the row's state was. -/
theorem Desk.Sound.moveOrPass {l c : ProviderTransaction} {to_state : TxnState}
    (hs : q.Sound H l c) (hto : to_state ≠ .PAID) (hpaid : c.state = .PAID → l.state = .PAID)
    (hlegal : Legal l.state (transition_or_pass c to_state).state) (text : String) :
    q.Sound H l { transition_or_pass c to_state with last_error := some text } := by
  rcases transition_or_pass_cases c to_state with h | ⟨_, h⟩
  · rw [h] at hlegal ⊢
    exact ⟨hs.key, hlegal, fun hp hl => absurd (hpaid hp) hl, hs.order⟩
  · rw [h] at hlegal ⊢
    exact ⟨hs.key, hlegal, fun hp _ => absurd hp hto, hs.order⟩

/-- Failing closed: a guarded move to `FAILED` or `PROVIDER_UNKNOWN`, and a note. -/
theorem Desk.Carries.close {pending : Session} {row : Orm} (h : q.Carries H pending row)
    {to_state : TxnState} (hto : to_state = .FAILED ∨ to_state = .PROVIDER_UNKNOWN)
    (text : String) :
    q.Submittable H (pending ++ [((row.moveOrPass to_state).fail text).write]) := by
  have hne : to_state ≠ .PAID := by rcases hto with rfl | rfl <;> decide
  cases h with
  | steady hp h =>
    have hlegal : Legal row.loaded.state (transition_or_pass row.cur to_state).state :=
      h.steady ▸ transition_or_pass_legal row.cur to_state
    exact Desk.submit_one hp h.mem
      (h.sound.moveOrPass hne (fun hc => h.steady ▸ hc) hlegal text)
  | flushed l h hs hstate =>
    have hcases := transition_or_pass_cases row.cur to_state
    have hend : (transition_or_pass row.cur to_state).state = .PROVIDER_SUBMITTED ∨
        (transition_or_pass row.cur to_state).state = .FAILED ∨
        (transition_or_pass row.cur to_state).state = .PROVIDER_UNKNOWN ∨
        ((transition_or_pass row.cur to_state).state = .CAPTURED ∧ q.Moved H) := by
      rcases hcases with hc | ⟨_, hc⟩
      · rw [hc]
        rcases hstate with hstate | hstate
        · exact .inl hstate
        · exact .inr (.inr (.inr hstate))
      · rw [hc]
        rcases hto with rfl | rfl
        · exact .inr (.inl rfl)
        · exact .inr (.inr (.inl rfl))
    have hlegal : Legal row.loaded.state (transition_or_pass row.cur to_state).state := by
      rw [h.submitted]
      rcases hend with he | he | he | ⟨he, _⟩ <;> rw [he] <;> decide
    have hnpaid : row.cur.state ≠ .PAID := by
      rcases hstate with hstate | ⟨hstate, _⟩ <;> rw [hstate] <;> decide
    refine Desk.Flushed.submit h
      (hs.moveOrPass hne (fun hc => absurd hc hnpaid) hlegal text) ?_
    rcases hend with he | he | he | ⟨_, hm⟩
    · exact .inl he
    · exact .inr (.inl he)
    · exact .inr (.inr (.inl he))
    · exact .inr (.inr (.inr hm))

theorem Desk.Carries.ext {q' : Desk} {pending : Session} {row : Orm}
    (h : q.Carries H pending row) (hq : q.Ext q') : q'.Carries H pending row := by
  cases h with
  | steady hp h => exact .steady hp (h.ext hq)
  | flushed l h hs hstate =>
    refine .flushed l (h.ext hq) (hs.ext hq) ?_
    rcases hstate with hstate | ⟨hstate, hm⟩
    · exact .inl hstate
    · exact .inr ⟨hstate, hm.ext hq⟩

/-- What a raised exception leaves on the desk. -/
def Desk.Leaves (H : Host) (q : Desk) (raised : Raised) : Prop :=
  match raised.row with
  | none => raised.pending.Light
  | some row => q.Carries H raised.pending row

/-- The row in an `except` block. -/
theorem desk_access {raised : Raised} {id : String} {α : Type} {k : Orm → Handler α}
    {Post : α → Desk → Prop} (h : q.Leaves H raised)
    (hk : ∀ row q', q.Ext q' → q'.Carries H raised.pending row →
      (k row).Conforms (desk H) Post q') :
    (raised.access id >>= k).Conforms (desk H) Post q := by
  unfold Desk.Leaves at h
  unfold Raised.access
  split at h
  · next hrow =>
    rw [hrow]
    exact desk_loadTxn fun t q' hq ht _ => hk _ q' hq (.steady h (Desk.holds_fresh ht))
  · next row hrow =>
    rw [hrow]
    exact hk row q (Desk.Ext.refl q) h

/-- An `except` block's own commit. -/
theorem close_conforms {raised : Raised} {id : String} {to_state : TxnState} {text : String}
    (h : q.Leaves H raised) (hto : to_state = .FAILED ∨ to_state = .PROVIDER_UNKNOWN) :
    (raised.access id >>= fun row => Handler.commit
      (raised.pending ++ [((row.moveOrPass to_state).fail text).write])).Conforms (desk H)
      (fun _ _ => True) q :=
  desk_access h fun _ _ _ hc => commit_conforms (hc.close hto text)

theorem failClosed_conforms (x : Execution) (text : String) (answer : Orm → Reply) :
    (failClosed x text answer).Conforms (desk H) (fun _ _ => True) q := by
  refine desk_loadTxn fun t q' _ ht _ => ?_
  have hc : q'.Carries H [] (Orm.fresh t) := .steady Session.light_nil (Desk.holds_fresh ht)
  refine desk_commit (hc.close (.inl rfl) text) fun q'' _ _ _ => ?_
  exact desk_loadTxn fun _ _ _ _ _ => trivial

theorem handle_raised_conforms (x : Execution) {raised : Raised} (h : q.Leaves H raised) :
    (handle_raised H x raised).Conforms (desk H) (fun _ _ => True) q := by
  unfold handle_raised
  dsimp only
  split
  · trivial
  · exact Prog.conforms_seq (close_conforms h (.inr rfl)) fun _ _ _ => trivial
  · exact Prog.conforms_seq (close_conforms h (.inl rfl)) fun _ _ _ => trivial
  · exact Prog.conforms_seq (close_conforms h (.inl rfl)) fun _ _ _ =>
      desk_loadTxn fun _ _ _ _ _ => trivial
  · exact Prog.conforms_seq (close_conforms h (.inl rfl)) fun _ _ _ => trivial

/-! ## Consuming: the agentic path -/

/-- What a settlement path owes its `except` block. -/
def Desk.Settled (H : Host) (q : Desk) (r : Except Raised Reply) : Prop :=
  ∀ raised, r = .error raised → q.Leaves H raised

theorem Desk.settled_ok (H : Host) (q : Desk) (reply : Reply) : q.Settled H (.ok reply) :=
  fun _ h => absurd h (by simp)

theorem Desk.settled_error {raised : Raised} (h : q.Leaves H raised) :
    q.Settled H (.error raised) :=
  fun _ hr => Except.error.inj hr ▸ h

theorem answerConsumed_conforms (x : Execution) {pending : Session} {row : Orm} (ref : Json)
    (h : q.Submittable H (pending ++ [row.write])) :
    (answerConsumed x pending row ref).Conforms (desk H) (fun _ _ => True) q :=
  desk_commit h fun _ _ _ _ => desk_loadTxn fun _ _ _ _ _ => trivial

theorem confirm_agentic_conforms (x : Execution) {pending : Session} {row : Orm} {ref : Json}
    {l : ProviderTransaction} (h : q.Flushed H pending l row.loaded) (hrow : row.cur = row.loaded)
    (hid : row.loaded.authorization_id = x.auth.authorization_id) (hx : x.auth ∈ q.terms)
    (href : bindText ref = some row.loaded.razorpay_payment_id) (hmoved : q.Moved H) :
    (confirm_agentic H x pending row ref).Conforms (desk H) (fun r q' => q'.Settled H r) q := by
  obtain ⟨loaded, cur⟩ := row
  obtain rfl : cur = loaded := hrow
  have hsub : cur.state = .PROVIDER_SUBMITTED := h.submitted
  -- `PROVIDER_SUBMITTED` to `CAPTURED`, through `PROVIDER_AUTHORIZED`
  have hcaptured : ((Orm.mk cur cur).move .PROVIDER_AUTHORIZED).bind (·.move .CAPTURED) =
      .ok ⟨cur, { cur with state := .CAPTURED }⟩ := by
    simp [Orm.move, transition_txn, hsub, TRANSITION_TABLE, Except.bind]
  have hlegal : Legal cur.state .CAPTURED := by rw [hsub]; decide
  have hsound : ∀ q' : Desk, q'.Sound H cur { cur with state := .CAPTURED } := fun q' =>
    ⟨rfl, hlegal, fun hp => absurd hp (by simp), .inl rfl⟩
  unfold confirm_agentic
  rw [hcaptured]
  refine desk_send (fun id hid => absurd hid (by simp [Op.submits])) fun payment_data => ?_
  have hq := Desk.ext_called (q := q)
    (c := ⟨.agentic x.auth.org_id, .agentic_get_payment ref⟩) rfl payment_data
  have hcarry : (q.called ⟨.agentic x.auth.org_id, .agentic_get_payment ref⟩
      payment_data).Carries H pending ⟨cur, { cur with state := .CAPTURED }⟩ :=
    .flushed l (h.ext hq) (hsound _) (.inr ⟨rfl, hmoved.ext hq⟩)
  split
  · exact Desk.settled_error hcarry
  next data =>
  split
  · exact Desk.settled_error hcarry
  · refine Prog.conforms_seq (answerConsumed_conforms x ref ?_) fun reply q' _ =>
      Desk.settled_ok H q' reply
    exact Desk.Flushed.submit (h.ext hq)
      ⟨rfl, hlegal, fun hp => absurd hp (by simp [Orm.fail, Orm.set]), .inl rfl⟩
      (.inr (.inr (.inr (hmoved.ext hq))))
  · next hcorroborated =>
    split
    · exact Desk.settled_error hcarry
    next paid hpaid =>
    obtain ⟨_, rfl⟩ := Orm.move_ok hpaid
    refine desk_reads (record_audit_reads _ _ _) ?_
    rintro s q' hq' ⟨e, _, rfl⟩
    refine Prog.conforms_seq (answerConsumed_conforms x ref ?_) fun reply q' _ =>
      Desk.settled_ok H q' reply
    refine Desk.Flushed.submit (((h.ext hq).ext hq').audit e) ⟨rfl, ?_, ?_, .inl rfl⟩
      (.inr (.inr (.inr ((hmoved.ext hq).ext hq'))))
    · show Legal cur.state .PAID
      rw [hsub]
      decide
    · intro _ _
      have hcall := List.mem_append_right q.calls (List.mem_singleton_self
        (⟨.agentic x.auth.org_id, .agentic_get_payment ref⟩, (.ok data : Answer)))
      exact ⟨⟨_, .agentic_get_payment ref⟩, .ok data, data, x.auth, hq'.calls hcall, href, rfl,
        hq'.terms (hq.terms hx), hid.symm, hcorroborated⟩

theorem settle_capture_conforms (x : Execution) {pending : Session} {row : Orm} {ref : Json}
    {reply : Json} {l : ProviderTransaction} (h : q.Flushed H pending l row.loaded)
    (hrow : row.cur = row.loaded) (hid : row.loaded.authorization_id = x.auth.authorization_id)
    (hx : x.auth ∈ q.terms) (href : bindText ref = some row.loaded.razorpay_payment_id)
    {call : Call} (hcall : (call, .ok reply) ∈ q.calls) {amount : Int} {currency key : String}
    (hop : call.op = .capture_payment ref amount currency key) :
    (settle_capture H x pending row ref reply).Conforms (desk H)
      (fun r q' => q'.Settled H r) q := by
  obtain ⟨loaded, cur⟩ := row
  obtain rfl : cur = loaded := hrow
  have hcarry : q.Carries H pending ⟨cur, cur⟩ :=
    .flushed l h (Desk.Sound.refl H q _) (.inl h.submitted)
  unfold settle_capture
  split
  · exact Desk.settled_error hcarry
  next status hstatus =>
  dsimp only
  have hmoved : pyLower H.toText status ∈ MOVING_STATUSES → q.Moved H := by
    intro hm
    refine ⟨call, .ok reply, hcall, ?_⟩
    simp [Call.movesOn, hop, hstatus, hm]
  -- one move away from `PROVIDER_SUBMITTED`, and the commit
  have hfinish : ∀ (to_state : TxnState) (text : String), to_state ≠ .PAID →
      (to_state = .FAILED ∨ to_state = .PROVIDER_UNKNOWN ∨ q.Moved H) →
      (finish_capture x pending ⟨cur, cur⟩ ref to_state text).Conforms (desk H)
        (fun r q' => q'.Settled H r) q := by
    intro to_state text hne hend
    unfold finish_capture
    split
    · exact Desk.settled_error hcarry
    next moved hm =>
    obtain ⟨hmem, rfl⟩ := Orm.move_ok hm
    refine Prog.conforms_seq (answerConsumed_conforms x ref ?_) fun reply q' _ =>
      Desk.settled_ok H q' reply
    refine Desk.Flushed.submit h ⟨rfl, .inr hmem, fun hp => absurd hp hne, .inl rfl⟩ ?_
    rcases hend with he | he | he
    · exact .inr (.inl he)
    · exact .inr (.inr (.inl he))
    · exact .inr (.inr (.inr he))
  split
  · next hs =>
    refine confirm_agentic_conforms x h rfl hid hx href (hmoved ?_)
    simp only [List.mem_cons, List.not_mem_nil, or_false] at hs
    rcases hs with hs | hs <;> rw [hs] <;> decide
  split
  · next hs =>
    refine hfinish _ _ (by decide) (.inr (.inr (hmoved ?_)))
    simp only [List.mem_cons, List.not_mem_nil, or_false] at hs
    rcases hs with hs | hs | hs | hs <;> rw [hs] <;> decide
  split
  · next hs =>
    by_cases hf : pyLower H.toText status = "failed"
    · rw [if_pos hf]
      exact hfinish _ _ (by decide) (.inl rfl)
    · rw [if_neg hf]
      refine hfinish _ _ (by decide) (.inr (.inr (hmoved ?_)))
      simp only [List.mem_cons, List.not_mem_nil, or_false] at hs
      rcases hs with hs | hs | hs | hs
      · exact absurd hs hf
      all_goals rw [hs]; decide
  · exact hfinish _ _ (by decide) (.inr (.inl rfl))

theorem capture_agentic_conforms (x : Execution) (adapter : AgenticAdapter) (ref : Json)
    (hx : x.auth ∈ q.terms) :
    (capture_agentic H x adapter ref).Conforms (desk H) (fun r q' => q'.Settled H r) q := by
  refine desk_loadTxn fun t q₁ hq₁ ht hid => ?_
  dsimp only
  split
  · have hcarry : q₁.Carries H [] (Orm.fresh t) := .steady Session.light_nil (Desk.holds_fresh ht)
    exact Desk.settled_error hcarry
  next moved hm =>
  obtain ⟨hmem, rfl⟩ := Orm.move_ok hm
  split
  · trivial
  next payment_id href =>
  -- the row as it is flushed
  generalize hm' : (((Orm.mk (Orm.fresh t).loaded
      { (Orm.fresh t).cur with state := .PROVIDER_SUBMITTED }).set fun t =>
      adapter.provenance.elim t fun v => v.stamp t).set fun t =>
      { t with razorpay_payment_id := payment_id }) = row
  have hrow : row.loaded = t ∧ row.cur.authorization_id = t.authorization_id ∧
      row.cur.state = .PROVIDER_SUBMITTED ∧ row.cur.razorpay_order_id = t.razorpay_order_id ∧
      row.cur.razorpay_payment_id = payment_id := by
    subst hm'
    cases adapter.provenance <;> exact ⟨rfl, rfl, rfl, rfl, rfl⟩
  obtain ⟨hl, hkey, hstate, horder, hpayment⟩ := hrow
  have hsound : q₁.Sound H t row.cur :=
    ⟨hkey, by rw [hstate]; exact .inr hmem, fun hp => absurd (hstate.symm.trans hp) (by simp),
      .inl horder⟩
  have hflushed : q₁.Flushed H [row.write] t row.cur :=
    { updates := by simp [hl]
      settles := by
        intro w hw
        rw [List.mem_singleton.mp hw]
        exact .update _ _
      mem := ht, moved := hmem, sound := hsound, submitted := hstate }
  refine desk_reads (record_audit_reads _ _ _) ?_
  rintro s₂ q₂ hq₂ ⟨e₂, _, rfl⟩
  refine desk_reads (record_audit_reads _ _ _) ?_
  rintro s₃ q₃ hq₃ ⟨e₃, _, rfl⟩
  have hflushed₃ := (((hflushed.ext hq₂).audit e₂).ext hq₃).audit e₃
  refine desk_send (fun id hid => absurd hid (by simp [Op.submits])) fun capture => ?_
  have hq₄ := Desk.ext_called (q := q₃) (c := ⟨.agentic x.auth.org_id, .capture_payment ref
    x.auth.amount_minor_units x.auth.currency (x.auth.authorization_id ++ ":capture")⟩) rfl capture
  have hflushed₄ := hflushed₃.ext hq₄
  split
  · next exc =>
    refine Prog.conforms_seq (answerConsumed_conforms x ref ?_) fun reply q' _ =>
      Desk.settled_ok H q' reply
    have hcarry : Desk.Carries H _ _ row.flushed :=
      .flushed t hflushed₄ (Desk.Sound.refl H _ _) (.inl hstate)
    exact hcarry.close (.inr rfl) _
  · next reply =>
    exact settle_capture_conforms x hflushed₄ rfl (hkey.trans hid)
      (hq₄.terms (hq₃.terms (hq₂.terms (hq₁.terms hx)))) (hpayment ▸ href)
      (List.mem_append_right _ (List.mem_singleton_self _)) rfl

theorem consume_agentic_settlement_conforms (x : Execution) (adapter : AgenticAdapter)
    (hx : x.auth ∈ q.terms) (huse : q.MaySubmit x.auth.authorization_id) :
    (consume_agentic_settlement H x adapter).Conforms (desk H)
      (fun r q' => q'.Settled H r) q := by
  have hfail : ∀ (q' : Desk) (text : String) (answer : Orm → Reply),
      (failClosed x text answer >>= fun reply => pure (.ok reply) :
        Handler (Except Raised Reply)).Conforms (desk H) (fun r q' => q'.Settled H r) q' :=
    fun q' text answer => Prog.conforms_seq (failClosed_conforms x text answer) fun reply q'' _ =>
      Desk.settled_ok H q'' reply
  refine desk_now fun now q₁ hq₁ => desk_query fun w => ?_
  have hq₂ := hq₁.trans (Desk.ext_select q₁ w)
  dsimp only
  split
  · exact hfail _ _ _
  next binding _ =>
  refine desk_send (fun id hid => absurd hid (by simp [Op.submits])) fun validation => ?_
  have hq₃ := hq₂.trans (Desk.ext_called (c := ⟨.agentic x.auth.org_id,
    .validate_mandate binding.provider_mandate_ref⟩) rfl validation)
  split
  · exact Desk.settled_error Session.light_nil
  split
  · split
    · exact hfail _ _ _
    · refine desk_send ?_ fun auth_result => ?_
      · rintro id ⟨rfl⟩
        exact huse.ext hq₃
      split
      · exact Desk.settled_error Session.light_nil
      split
      · split
        · exact Desk.settled_error Session.light_nil
        · exact capture_agentic_conforms x adapter _ (hq₃.terms hx)
      · exact Desk.settled_error Session.light_nil
  · exact Desk.settled_error Session.light_nil

theorem agentic_path_conforms (x : Execution) (adapter : AgenticAdapter)
    (hx : x.auth ∈ q.terms) (huse : q.MaySubmit x.auth.authorization_id) :
    (agentic_path H x adapter).Conforms (desk H) (fun _ _ => True) q := by
  refine Prog.conforms_seq (consume_agentic_settlement_conforms x adapter hx huse) ?_
  intro r q' hr
  cases r with
  | ok reply => trivial
  | error raised =>
    have h := hr raised rfl
    dsimp only
    split
    · exact desk_access h fun _ _ _ hc => desk_commit (hc.close (.inr rfl) _) fun _ _ _ _ => trivial
    · trivial
    · exact desk_access h fun _ _ _ hc => desk_commit (hc.close (.inl rfl) _) fun _ _ _ _ => trivial

/-! ## Consuming: the order-based path -/

theorem submit_order_conforms (x : Execution) (provider : RazorpayAdapter) (order : Json)
    (hcreated : ∃ call answer, (call, answer) ∈ q.calls ∧ call.op.submits ≠ none) :
    (submit_order H x provider order).Conforms (desk H) (fun r q' => q'.Settled H r) q := by
  unfold submit_order
  split
  · exact Desk.settled_error Session.light_nil
  split
  · trivial
  next order_id _ =>
  refine desk_loadTxn fun t q₁ hq₁ ht _ => ?_
  obtain ⟨call, answer, hcall, hsub⟩ := hcreated
  have hholds : q₁.Holds H (((Orm.fresh t).set fun t =>
      { t with razorpay_order_id := order_id }).set (provider.provenance H).stamp) :=
    ⟨ht, ⟨rfl, .inl rfl, fun hp hl => absurd hp hl, .inr (.inr ⟨call, answer, hq₁.calls hcall, hsub⟩)⟩,
      rfl, rfl⟩
  dsimp only
  split
  · have hcarry := Desk.Carries.steady Session.light_nil hholds
    exact Desk.settled_error hcarry
  next moved hm =>
  have hsound := hholds.move hm fun hp => absurd hp (by simp)
  have hloaded : moved.loaded = t := by
    obtain ⟨_, rfl⟩ := Orm.move_ok hm
    rfl
  refine desk_reads (record_audit_reads _ _ _) ?_
  rintro s₂ q₂ hq₂ ⟨e₂, _, rfl⟩
  refine desk_reads (record_audit_reads _ _ _) ?_
  rintro s₃ q₃ hq₃ ⟨e₃, _, rfl⟩
  have hq := hq₂.trans hq₃
  refine desk_commit ⟨?_, .inr (.inl ⟨moved.loaded, moved.cur, by simp, .inl ?_, hsound.ext hq⟩)⟩ ?_
  · intro w hw
    simp only [List.cons_append, List.nil_append, List.mem_cons, List.not_mem_nil, or_false] at hw
    rcases hw with rfl | rfl | rfl
    · exact .update _ _
    · exact .audit e₂
    · exact .audit e₃
  · rw [hloaded]
    exact hq.rows ht
  · intro q₄ _ _ _
    exact desk_loadTxn fun t q₅ _ _ _ => Desk.settled_ok H q₅ _

theorem create_payment_conforms (p : RazorpayAdapter) (id : String) (amount : Int)
    (currency : String) (notes : List (String × String)) (huse : q.MaySubmit id) :
    (p.create_payment H id amount currency notes).Conforms (desk H)
      (fun a q' => ∀ data, a = .ok data →
        ∃ call answer, (call, answer) ∈ q'.calls ∧ call.op.submits ≠ none) q := by
  unfold RazorpayAdapter.create_payment
  split
  · exact fun data h => absurd h (by simp)
  unfold RazorpayAdapter.request
  split
  · refine fun data h => absurd h ?_
    simp [bind, Except.bind]
  · refine fun a => ⟨_, ⟨?_, rfl⟩, fun data _ => ?_⟩
    · rintro id' ⟨rfl⟩
      exact huse
    · exact ⟨_, _, List.mem_append_right _ (List.mem_singleton_self _), by simp [Op.submits]⟩

theorem create_order_conforms (x : Execution)
    (huse : q.MaySubmit x.auth.authorization_id) :
    (create_order H x).Conforms (desk H) (fun r q' => q'.Settled H r) q := by
  refine desk_query fun w => ?_
  split
  · exact Desk.settled_error Session.light_nil
  next provider _ =>
  refine Prog.conforms_seq (create_payment_conforms provider _ _ _ _
    (huse.ext (Desk.ext_select q w))) ?_
  intro order q' hcreated
  cases order with
  | error e => exact Desk.settled_error Session.light_nil
  | ok order =>
    dsimp only
    split
    · exact Desk.settled_error Session.light_nil
    · exact submit_order_conforms x provider order (hcreated order rfl)
    · refine desk_loadTxn fun t q₁ _ ht _ => ?_
      have hholds : q₁.Holds H (Orm.fresh t) := Desk.holds_fresh ht
      split
      · have hcarry := Desk.Carries.steady Session.light_nil hholds
        exact Desk.settled_error hcarry
      next moved hm =>
      have hsound := hholds.move hm fun hp => absurd hp (by simp)
      obtain ⟨_, rfl⟩ := Orm.move_ok hm
      refine desk_commit (Desk.submit_one Session.light_nil ht
        ⟨hsound.key, hsound.legal, fun hp => absurd hp (by simp [Orm.fail, Orm.set]),
          hsound.order⟩) ?_
      exact fun q₂ _ _ _ => Desk.settled_ok H q₂ _

/-! ## Consuming and revoking -/

theorem execute_conforms (x : Execution) (hx : x.auth ∈ q.terms)
    (huse : q.MaySubmit x.auth.authorization_id) :
    (execute H x).Conforms (desk H) (fun _ _ => True) q := by
  unfold execute
  split
  · exact handle_raised_conforms x Session.light_nil
  split
  · trivial
  split
  · exact agentic_path_conforms x _ hx huse
  split
  · exact failClosed_conforms x _ _
  · refine Prog.conforms_seq (create_order_conforms x huse) ?_
    intro r q' hr
    cases r with
    | ok reply => trivial
    | error raised => exact handle_raised_conforms x (hr raised rfl)

/-- The commit that makes a reservation final. -/
theorem Desk.submit_reservation {pending : Session} (hp : pending.Light)
    (auth : BoundedAuthorization) {found : Option ProviderTransaction}
    (hfound : ∀ t, found = some t → t ∈ q.rows) :
    q.Submittable H (pending ++ countAttempt auth found) := by
  have hsound : ∀ t : ProviderTransaction, q.Sound H t { t with attempts := t.attempts + 1 } :=
    fun t => ⟨rfl, Legal.refl _, fun h h' => absurd h h', .inl rfl⟩
  have hset : ∀ w ∈ countAttempt auth found, w.Settles := by
    intro w hw
    unfold countAttempt at hw
    split at hw
    · rw [List.mem_singleton.mp hw]
      exact .update _ _
    · simp only [List.mem_cons, List.not_mem_nil, or_false] at hw
      rcases hw with rfl | rfl
      · exact .txn _ rfl
      · exact .update _ _
  refine ⟨?_, .inr (.inl ?_)⟩
  · intro w hw
    rcases List.mem_append.mp hw with hw | hw
    · exact hp.settles w hw
    · exact hset w hw
  · cases found with
    | some t =>
      exact ⟨t, _, by simp [hp.updates, countAttempt], .inl (hfound t rfl), hsound t⟩
    | none =>
      refine ⟨record_provider_txn auth, _, by simp [hp.updates, countAttempt], .inr ?_,
        hsound _⟩
      exact List.mem_append_right _ List.mem_cons_self

theorem consume_authorization_conforms (ctx : RequestContext) (id token : String)
    (huse : q.use = .idle) (hrole : q.role = .consume) :
    (consume_authorization H ctx id token).Conforms (desk H) (fun _ _ => True) q := by
  refine desk_query fun w => ?_
  split
  · trivial
  next auth hfind =>
  have hauth : auth ∈ (q.after .select w).terms :=
    List.mem_append_right _ (List.mem_of_find?_eq_some hfind)
  obtain rfl : auth.authorization_id = id := by simpa using List.find?_some hfind
  refine desk_authenticated fun a q₁ hq₁ ha => ?_
  refine desk_attempt (revalidate_execution_reads H auth) fun agent q₂ hq₂ _ => ?_
  have hq := ((Desk.ext_select q w).trans hq₁).trans hq₂
  have hauth₂ := hq₂.terms (hq₁.terms hauth)
  have huse₂ : q₂.use = .idle := hq.use.trans huse
  have hrole₂ : q₂.role = .consume := hq.role.trans hrole
  refine fun w₃ => ⟨_, ⟨⟨huse₂, hrole₂.symm⟩, rfl⟩, ?_⟩
  show (if !w₃.reservable auth.authorization_id then _ else _ : Handler Reply).Conforms _ _ _
  split
  · next hfree =>
    have hidle : (q₂.after (.reserve auth.authorization_id .consume) w₃).use = .idle := by
      simp only [Desk.after]
      rw [if_neg (by simpa using hfree)]
      exact huse₂
    exact fun w₄ => ⟨_, ⟨hidle, rfl⟩, trivial⟩
  · next hfree =>
    refine desk_query fun w₄ => ?_
    refine desk_commit (Desk.submit_reservation ha.light auth fun t ht =>
      List.mem_append_right _ (List.mem_of_find?_eq_some ht)) ?_
    intro q₅ hterms huse₅ hrole₅
    have hwon : q₅.use = .won auth.authorization_id := by
      rw [huse₅]
      simp only [Desk.after]
      rw [if_pos (by simpa using hfree)]
      rfl
    refine desk_query fun w₆ => desk_query fun w₇ => ?_
    have hq₇ := (Desk.ext_select q₅ w₆).trans (Desk.ext_select _ w₇)
    have hmay : q₅.MaySubmit auth.authorization_id := ⟨hwon, hrole₅.trans hrole₂⟩
    refine execute_conforms _ (hq₇.terms ?_) (hmay.ext hq₇)
    rw [hterms]
    exact List.mem_append_left _ hauth₂

theorem revoke_authorization_conforms (ctx : RequestContext) (id token : String)
    (huse : q.use = .idle) (hrole : q.role = .revoke) :
    (revoke_authorization H ctx id token).Conforms (desk H) (fun _ _ => True) q := by
  refine desk_query fun w => ?_
  split
  · trivial
  refine desk_authenticated fun a q₁ hq₁ ha => ?_
  have hq := (Desk.ext_select q w).trans hq₁
  have huse₁ : q₁.use = .idle := hq.use.trans huse
  refine fun w₂ => ⟨_, ⟨⟨huse₁, (hq.role.trans hrole).symm⟩, rfl⟩, ?_⟩
  show (if !w₂.reservable id then _ else _ : Handler Reply).Conforms _ _ _
  split
  · next hfree =>
    have hidle : (q₁.after (.reserve id .revoke) w₂).use = .idle := by
      simp only [Desk.after]
      rw [if_neg (by simpa using hfree)]
      exact huse₁
    exact fun w₃ => ⟨_, ⟨hidle, rfl⟩, trivial⟩
  · refine desk_reads (record_audit_reads _ _ _) ?_
    rintro s q₃ _ ⟨e, _, rfl⟩
    exact desk_commit (Desk.submit_light (ha.light.audit e)) fun _ _ _ _ => trivial

end Paari
