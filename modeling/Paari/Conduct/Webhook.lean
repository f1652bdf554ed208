import Paari.Conduct.Reconcile

/-!
# Provider events and refunds keep to the desk
-/

namespace Paari

open Atomic

variable {H : Host} {q : Desk}

/-! ## Provider events -/

theorem rejectEvent_conforms (auth : BoundedAuthorization) (kind org_id : String)
    (detail : List (String × Json)) (reply : Reply) :
    (rejectEvent H auth kind org_id detail reply).Conforms (desk H) (fun _ _ => True) q := by
  refine desk_reads (record_audit_reads _ _ _) ?_
  rintro s q' _ ⟨e, _, rfl⟩
  exact desk_commit (Desk.submit_light (Session.light_nil.audit e)) fun _ _ _ _ => trivial

theorem eventTarget_ne_paid {event_type : String} {target : TxnState}
    (h : eventTarget event_type = some target) : target ≠ .PAID := by
  unfold eventTarget at h
  rintro rfl
  split at h
  · exact absurd h (by simp)
  · split at h
    · exact absurd h (by simp)
    · split at h <;> exact absurd h (by simp)

theorem applyEvent_conforms (provider : RazorpayAdapter) {row : Orm} (h : q.Holds H row)
    (auth : BoundedAuthorization) (e : WebhookEvent) (event_id : String) {target : TxnState}
    (htarget : target ≠ .PAID) :
    (applyEvent H provider row auth e event_id target).Conforms (desk H) (fun _ _ => True) q := by
  unfold applyEvent
  dsimp only
  split
  · trivial
  · next moved hm =>
    split
    · trivial
    · next payment_id _ =>
      refine desk_query fun w₁ => desk_query fun w₂ => ?_
      have hq₁ := (Desk.ext_select q w₁).trans (Desk.ext_select _ w₂)
      refine desk_reads (record_audit_reads _ _ _) ?_
      rintro s q' hq₂ ⟨e, _, rfl⟩
      have hq := hq₁.trans hq₂
      have hsound := (h.ext hq).move hm fun hpaid => absurd hpaid htarget
      obtain ⟨_, rfl⟩ := Orm.move_ok hm
      refine desk_commit (Desk.submit_one (Session.light_nil.audit e) (hq.rows h.mem)
        ⟨hsound.key, hsound.legal, fun hpaid => absurd hpaid htarget, hsound.order⟩) ?_
      intro q'' _ _ _
      refine desk_loadTxn fun t q₃ _ ht _ => ?_
      split
      · exact Prog.conforms_seq (confirm_capture_conforms (Desk.holds_fresh ht) provider)
          fun _ _ _ => trivial
      · trivial

theorem checkEvent_conforms (provider : RazorpayAdapter) (raw : String) {row : Orm}
    (h : q.Holds H row) (auth : BoundedAuthorization) (e : WebhookEvent) :
    (checkEvent H provider raw row auth e).Conforms (desk H) (fun _ _ => True) q := by
  refine desk_query fun w₁ => ?_
  split
  · trivial
  · exact rejectEvent_conforms _ _ _ _ _
  · split
    · next event_id _ =>
      refine desk_query fun w₂ => ?_
      have hq := (Desk.ext_select q w₁).trans (Desk.ext_select _ w₂)
      split
      · trivial
      · split
        · trivial
        · next target htarget =>
          split
          · trivial
          · exact rejectEvent_conforms _ _ _ _ _
          · exact applyEvent_conforms provider (h.ext hq) auth e event_id
              (eventTarget_ne_paid htarget)
    · trivial

theorem razorpay_webhook_conforms (raw signature : String) :
    (razorpay_webhook H raw signature).Conforms (desk H) (fun _ _ => True) q := by
  unfold razorpay_webhook
  split
  · trivial
  split
  · trivial
  split
  · trivial
  split
  · trivial
  next order_id _ =>
  refine desk_query fun w₁ => desk_query fun w₂ => ?_
  split
  · trivial
  next provider _ =>
  split
  · trivial
  split
  · trivial
  next order_id =>
  refine desk_query fun w₃ => ?_
  split
  · trivial
  next found hfound =>
  refine desk_query fun w₄ => ?_
  split
  · trivial
  next auth _ =>
  refine checkEvent_conforms provider raw (Desk.holds_fresh ?_) auth _
  have hq := ((Desk.ext_select (q.after .select w₁) w₂).trans (Desk.ext_select _ w₃)).trans
    (Desk.ext_select _ w₄)
  have hfound' : found ∈ ((((q.after .select w₁).after .select w₂).after .select w₃).after
      .select w₄).rows :=
    (Desk.ext_select _ w₄).rows (List.mem_append_right _ (List.mem_of_find?_eq_some hfound))
  -- the row the session already held, or the one found now
  unfold identity
  split
  · next t ht =>
    split
    · exact hq.rows (List.mem_append_right _ (List.mem_of_find?_eq_some ht))
    · exact hfound'
  · exact hfound'

/-! ## Refunds -/

theorem record_refund_conforms {pending : Session} {row : Orm} (hp : pending.Light)
    (h : q.Holds H row) (auth : Option BoundedAuthorization) (amount : Int) (result : Json) :
    (record_refund H pending row auth amount result).Conforms (desk H) (fun _ _ => True) q := by
  unfold record_refund
  dsimp only
  split
  · trivial
  · next moved hm =>
    refine desk_query fun w₁ => desk_query fun w₂ => ?_
    have hq₁ := (Desk.ext_select q w₁).trans (Desk.ext_select _ w₂)
    refine desk_reads (record_audit_reads _ _ _) ?_
    rintro s q' hq₂ ⟨e, _, rfl⟩
    have hq := hq₁.trans hq₂
    have hsound := (h.ext hq).move hm fun hpaid => absurd hpaid (by simp)
    obtain ⟨_, rfl⟩ := Orm.move_ok hm
    refine desk_commit (Desk.submit_one (hp.audit e) (hq.rows h.mem) hsound) ?_
    intro q'' _ _ _
    refine desk_loadTxn fun t q₃ _ _ _ => ?_
    split <;> trivial

theorem refund_authorization_conforms (ctx : RequestContext) (id : String) (req : RefundRequest) :
    (refund_authorization H ctx id req).Conforms (desk H) (fun _ _ => True) q := by
  refine desk_query fun w => ?_
  split
  · trivial
  next txn hfind =>
  have htxn : txn ∈ (q.after .select w).rows :=
    List.mem_append_right _ (List.mem_of_find?_eq_some hfind)
  refine desk_authenticated fun a q₁ hq₁ ha => ?_
  have h := (Desk.holds_fresh (H := H) htxn).ext hq₁
  dsimp only
  split
  · trivial
  split
  · trivial
  refine desk_query fun w₂ => ?_
  split
  · trivial
  refine desk_query fun w₃ => ?_
  split
  · trivial
  next provider _ =>
  have h₃ := (h.ext (Desk.ext_select q₁ w₂)).ext (Desk.ext_select _ w₃)
  unfold RazorpayAdapter.refund
  split
  · have hrow := h₃.fail (slice 2000 "amount must be positive")
    refine desk_commit (Desk.submit_one ha.light hrow.mem hrow.sound) fun _ _ _ _ => trivial
  · refine Prog.conforms_seq (request_conforms provider (.refund _ _) rfl) ?_
    rintro result q₄ ⟨hq₄, _⟩
    have h₄ := h₃.ext hq₄
    cases result with
    | error exc =>
      have hrow := h₄.fail (slice 2000 (exc.text H.toText))
      exact desk_commit (Desk.submit_one ha.light hrow.mem hrow.sound) fun _ _ _ _ => trivial
    | ok result => exact record_refund_conforms ha.light h₄ _ _ result

end Paari
