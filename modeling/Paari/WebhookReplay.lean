import Paari.Conduct
import Paari.Delivery

/-!
# Webhook replays

A transaction remembers the id of the last event it applied, and nothing of the ones
before. What stops an older delivery from being applied a second time is the
transition table, and the table has cycles through `PROVIDER_UNKNOWN`: a capture that
the provider denies parks the transaction there, and from there the earlier
`payment.authorized` applies again.

So a delivery that was applied once is harmless later exactly when its event id is
still stored on some transaction, or the table has no edge from the transaction's
state to the event's. That it would pass every other check again is an invariant of
the run: accounts, the terms of authorizations and the organization of a transaction
stay what they were when it was applied.
-/

namespace Paari

open Atomic

/-! ## Deliveries in a history -/

/-- The transaction logs that an event was applied, and updates transaction `id`. -/
def AppliesTo (ws : Session) (id : String) : Prop :=
  (∃ e ∈ ws.audits, e.kind = "webhook_applied") ∧ ∃ u ∈ updates ws, u.1.authorization_id = id

instance (ws : Session) (id : String) : Decidable (AppliesTo ws id) :=
  inferInstanceAs (Decidable (_ ∧ _))

/-- Handler `i` applied its event to transaction `id`: the commit of a delivery. -/
def Applied (i : Nat) (id : String) : Event World Stmt Call Answer → Prop
  | .stmt j (.commit ws) w => j = i ∧ (w.db.applyAll ws).isOk = true ∧ AppliesTo ws id
  | _ => False

instance (i : Nat) (id : String) : DecidablePred (Applied i id)
  | .stmt _ (.commit _) _ => inferInstanceAs (Decidable (_ ∧ _ ∧ _))
  | .stmt _ .select _ | .stmt _ .fresh _ | .stmt _ (.try_gate _) _ | .stmt _ (.reserve _ _) _
  | .stmt _ .rollback _ | .call _ _ _ _ | .died _ _ => .isFalse fun h => h

/-- The body of the `i`-th request, if that is a delivery. -/
def bodyAt (reqs : List Request) (i : Nat) : Option String :=
  match reqs[i]? with
  | some (.webhook raw _) => some raw
  | _ => none

/-! ## What stays true of an applied delivery -/

/-- What an applied delivery had found out about transaction `id`: from `rows` the
transaction, from `accounts` that its organization is the right one, from `terms` that
the values agree. -/
structure Fits (H : Host) (raw : String) (d : Delivery) (id : String) (rows accounts terms : DB) :
    Prop where
  body : raw ≠ ""
  parsed : parseDelivery H raw = some d
  payment : d.target = .CAPTURED → ∃ p, bindText d.event.payment_id = some p
  org : ∃ t ∈ rows.txns, t.authorization_id = id ∧
    orgMismatch H accounts t.org_id d.event.account_id = some none
  values : ∃ auth, terms.authorizations.find? (fun a => a.authorization_id == id) = some auth ∧
    valueMismatch H auth d.event = .ok false

theorem provider_for_congr {H : Host} {db db' : DB}
    (h : db'.provider_accounts = db.provider_accounts) (org_id : String) :
    provider_for H db' org_id = provider_for H db org_id := by
  unfold provider_for get_provider_for_org
  rw [h]

theorem orgMismatch_congr {H : Host} {db db' : DB}
    (h : db'.provider_accounts = db.provider_accounts) (org_id : String)
    (account_id : Except PyError Json) :
    orgMismatch H db' org_id account_id = orgMismatch H db org_id account_id := by
  unfold orgMismatch
  rw [provider_for_congr h]

/-- An authorization of the same terms is found under the same id. -/
theorem find_terms {xs ys : List BoundedAuthorization} {id : String} {a : BoundedAuthorization}
    (h : ys.map BoundedAuthorization.terms = xs.map BoundedAuthorization.terms)
    (ha : xs.find? (fun a => a.authorization_id == id) = some a) :
    ∃ b, ys.find? (fun a => a.authorization_id == id) = some b ∧ b.terms = a.terms := by
  have hfind : ∀ zs : List BoundedAuthorization,
      (zs.map BoundedAuthorization.terms).find? (fun a => a.authorization_id == id) =
        (zs.find? fun a => a.authorization_id == id).map BoundedAuthorization.terms :=
    fun zs => List.find?_map
  have hys := hfind ys
  rw [h, hfind xs, ha] at hys
  obtain ⟨b, hb, hterms⟩ := Option.map_eq_some_iff.mp hys.symm
  exact ⟨b, hb, hterms⟩

theorem valueMismatch_terms {H : Host} {a b : BoundedAuthorization} (h : b.terms = a.terms)
    (e : WebhookEvent) : valueMismatch H b e = valueMismatch H a e := by
  have hamount : b.terms.amount_minor_units = a.terms.amount_minor_units := by rw [h]
  have hcurrency : b.terms.currency = a.terms.currency := by rw [h]
  change b.amount_minor_units = a.amount_minor_units at hamount
  change b.currency = a.currency at hcurrency
  unfold valueMismatch
  rw [hamount, hcurrency]

/-- What was found out stays true. -/
theorem Fits.onward {H : Host} {raw : String} {d : Delivery} {id : String}
    {rows accounts terms db : DB} (h : Fits H raw d id rows accounts terms)
    (hrows : rows.Onward db) (haccounts : accounts.Onward db) (hterms : terms.Onward db) :
    Fits H raw d id db db db := by
  refine ⟨h.body, h.parsed, h.payment, ?_, ?_⟩
  · obtain ⟨t, ht, hid, horg⟩ := h.org
    obtain ⟨t', ht', hid', horg'⟩ := hrows.rows t ht
    refine ⟨t', ht', hid'.trans hid, ?_⟩
    rw [horg', orgMismatch_congr haccounts.accounts]
    exact horg
  · obtain ⟨auth, hauth, hvalues⟩ := h.values
    obtain ⟨b, hb, hsame⟩ := find_terms hterms.terms hauth
    exact ⟨b, hb, (valueMismatch_terms hsame _).trans hvalues⟩

/-! ## The delivery as a protocol -/

/-- The body a handler delivers, if it does, and every database it has looked at. -/
structure Vetting where
  body : Option String
  seen : List DB

namespace Vetting

variable {H : Host} {q : Vetting}

/-- It has found out what an applied delivery has. -/
def Knows (H : Host) (q : Vetting) (raw : String) (id : String) : Prop :=
  ∃ d, ∃ rows ∈ q.seen, ∃ accounts ∈ q.seen, ∃ terms ∈ q.seen, Fits H raw d id rows accounts terms

theorem Knows.mono {q q' : Vetting} {raw id : String} (h : q.Knows H raw id)
    (hseen : q.seen ⊆ q'.seen) : q'.Knows H raw id := by
  obtain ⟨d, rows, hr, accounts, ha, terms, ht, hfits⟩ := h
  exact ⟨d, rows, hseen hr, accounts, hseen ha, terms, hseen ht, hfits⟩

/-- Only a delivery that has found all this out applies its event. -/
def Allows (H : Host) (q : Vetting) (s : Stmt) : Prop :=
  ∀ ws raw id, s = .commit ws → q.body = some raw → AppliesTo ws id → q.Knows H raw id

/-- After a statement. -/
def looked (q : Vetting) (w : World) : Vetting := { q with seen := q.seen ++ [w.db] }

theorem mem_looked (q : Vetting) (w : World) : w.db ∈ (q.looked w).seen :=
  List.mem_append_right _ (List.mem_singleton_self _)

theorem looked_of_mem {q : Vetting} {db : DB} (h : db ∈ q.seen) (w : World) :
    db ∈ (q.looked w).seen := List.mem_append_left _ h

end Vetting

/-- Deliveries look before they apply. -/
def vetting (H : Host) : Protocol World Stmt Call Answer Vetting where
  stmt q s w q' := q.Allows H s ∧ q' = q.looked w
  call q _ _ q' := q' = q

section
variable {H : Host} {q : Vetting} {α β : Type} {Post : β → Vetting → Prop}

/-- A handler that delivers nothing may do anything. -/
theorem vetting_of_none (p : Handler α) (h : q.body = none) :
    p.Conforms (vetting H) (fun _ _ => True) q := by
  refine Prog.conforms_of_all (I := fun q => q.body = none) (fun q s w hq => ?_)
    (fun q c a hq => ⟨q, rfl, hq⟩) p h
  exact ⟨q.looked w, ⟨fun _ _ _ _ hbody _ => absurd (hq.symm.trans hbody) (by simp), rfl⟩, hq⟩

theorem vetting_query {f : DB → α} {k : α → Handler β}
    (h : ∀ w : World, (k (f w.db)).Conforms (vetting H) Post (q.looked w)) :
    (Handler.query f >>= k).Conforms (vetting H) Post q :=
  fun w => ⟨_, ⟨fun _ _ _ hs => absurd hs (by simp), rfl⟩, h w⟩

theorem vetting_reads {R : α → Prop} {p : Handler α} {k : α → Handler β} (hp : p.Reads R)
    (hk : ∀ a q', q'.body = q.body → q.seen ⊆ q'.seen → R a → (k a).Conforms (vetting H) Post q') :
    (p >>= k).Conforms (vetting H) Post q := by
  let le (q q' : Vetting) : Prop := q'.body = q.body ∧ q.seen ⊆ q'.seen
  have hstep : ∀ q s w, s = Stmt.select → ∃ q', (vetting H).stmt q s w q' ∧ le q q' := by
    rintro q s w rfl
    exact ⟨q.looked w, ⟨fun _ _ _ hs => absurd hs (by simp), rfl⟩, rfl,
      fun _ h => List.mem_append_left _ h⟩
  exact Prog.conforms_seq
    (Prog.conforms_of_quiet (fun q => ⟨rfl, fun _ h => h⟩)
      (fun _ _ _ h h' => ⟨h'.1.trans h.1, fun _ hx => h'.2 (h.2 hx)⟩) hstep hp)
    fun a q' ha => hk a q' ha.1.1 ha.1.2 ha.2

theorem vetting_commit {ws : List Write} {k : Unit → Handler β}
    (hws : ∀ raw id, q.body = some raw → AppliesTo ws id → q.Knows H raw id)
    (h : ∀ q', (k ()).Conforms (vetting H) Post q') :
    (Handler.commit ws >>= k).Conforms (vetting H) Post q := by
  refine Handler.conforms_commit fun w => ⟨_, ⟨fun ws' raw id hs => ?_, rfl⟩, fun _ _ => h _⟩
  obtain rfl := Stmt.commit.inj hs
  exact hws raw id

theorem vetting_loadTxn {id : String} {k : Orm → Handler β}
    (h : ∀ r q', (k r).Conforms (vetting H) Post q') :
    (loadTxn id >>= k).Conforms (vetting H) Post q := by
  exact conforms_loadTxn fun w =>
    ⟨_, ⟨fun _ _ _ hs => absurd hs (by simp), rfl⟩, fun _ _ _ => h _ _⟩

/-- A transaction that logs nothing of the kind applies no event. -/
theorem not_appliesTo {ws : Session} {id : String}
    (h : ∀ e, .insertAudit e ∈ ws → e.kind ≠ "webhook_applied") : ¬ AppliesTo ws id := by
  rintro ⟨⟨e, he, hkind⟩, _⟩
  exact h e (Session.mem_audits.mp he) hkind

theorem request_vetting (p : RazorpayAdapter) (op : Op) :
    (p.request H op).Conforms (vetting H) (fun _ _ => True) q := by
  unfold RazorpayAdapter.request
  split
  · trivial
  · exact fun a => ⟨q, rfl, trivial⟩

theorem read_payment_vetting (p : RazorpayAdapter) (t : ProviderTransaction) :
    (read_payment H p t).Conforms (vetting H) (fun _ _ => True) q := by
  unfold read_payment
  split
  · exact request_vetting p _
  · split
    · have hfetch : (p.fetch_payments H (t.razorpay_order_id.getD "")).Conforms (vetting H)
          (fun _ _ => True) q := Prog.conforms_seq (request_vetting p _) fun _ _ _ => trivial
      exact Prog.conforms_seq hfetch fun _ _ _ => trivial
    · trivial

theorem commitState_vetting {pending : Session} (row : Orm)
    (hp : ∀ e, .insertAudit e ∈ pending → e.kind ≠ "webhook_applied") :
    (commitState pending row).Conforms (vetting H) (fun _ _ => True) q := by
  refine vetting_commit (fun raw id _ happ => ?_) fun q' => ?_
  · refine absurd happ (not_appliesTo fun e he => ?_)
    rcases List.mem_append.mp he with he | he
    · exact hp e he
    · exact absurd (List.mem_singleton.mp he) (by simp [Orm.write])
  · exact vetting_loadTxn fun _ _ => trivial

/-- An audited step of the confirmation. -/
theorem audited_vetting {t : ProviderTransaction} {kind : String} {detail : List (String × Json)}
    {row : Orm} (hkind : kind ≠ "webhook_applied") :
    (audit_txn H [] t kind detail >>= fun s => commitState s row).Conforms (vetting H)
      (fun _ _ => True) q := by
  refine vetting_reads (audit_txn_reads _ _ _ _ _) ?_
  rintro s q' _ _ ⟨e, he, rfl⟩
  refine commitState_vetting row fun e' he' => ?_
  obtain rfl : e' = e := by simpa using he'
  rw [he]
  exact hkind

theorem confirm_capture_vetting (provider : RazorpayAdapter) (row : Orm) :
    (confirm_capture H provider row).Conforms (vetting H) (fun _ _ => True) q := by
  refine vetting_query fun w => ?_
  split
  · trivial
  next auth _ =>
  refine Prog.conforms_seq (read_payment_vetting provider _) fun payment q' _ => ?_
  split
  · exact commitState_vetting _ fun e he => absurd he List.not_mem_nil
  split
  · trivial
  split
  · trivial
  next p _ =>
  split
  · unfold confirmPaid
    split
    · trivial
    · exact audited_vetting (by decide)
    split
    · exact audited_vetting (by decide)
    dsimp only
    split
    · trivial
    split
    · trivial
    · exact audited_vetting (by decide)
  split
  · unfold confirmFailed
    dsimp only
    split
    · trivial
    · exact audited_vetting (by decide)
  · trivial

/-- A rejected event updates no transaction. -/
theorem rejectEvent_vetting (auth : BoundedAuthorization) (kind org_id : String)
    (detail : List (String × Json)) (reply : Reply) :
    (rejectEvent H auth kind org_id detail reply).Conforms (vetting H) (fun _ _ => True) q := by
  refine vetting_reads (record_audit_reads _ _ _) ?_
  rintro s q' _ _ ⟨e, _, rfl⟩
  refine vetting_commit (fun raw id _ happ => ?_) fun _ => trivial
  obtain ⟨_, u, hu, _⟩ := happ
  exact absurd hu (by simp)

theorem applyEvent_vetting (provider : RazorpayAdapter) {row : Orm}
    (auth : BoundedAuthorization) {e : WebhookEvent} {event_id : String} {target : TxnState}
    (hknows : (target = .CAPTURED → ∃ p, bindText e.payment_id = some p) →
      ∀ raw, q.body = some raw → q.Knows H raw row.loaded.authorization_id) :
    (applyEvent H provider row auth e event_id target).Conforms (vetting H) (fun _ _ => True) q := by
  unfold applyEvent
  dsimp only
  split
  · trivial
  next moved hm =>
  split
  · trivial
  next payment_id hbind =>
  have hpayment : target = .CAPTURED → ∃ p, bindText e.payment_id = some p := by
    intro h
    rw [if_pos h] at hbind
    exact ⟨payment_id, hbind⟩
  refine vetting_query fun w₁ => vetting_query fun w₂ => ?_
  refine vetting_reads (record_audit_reads _ _ _) ?_
  rintro s q' hbody hseen ⟨event, _, rfl⟩
  refine vetting_commit (fun raw id hraw happ => ?_) fun q'' => ?_
  · obtain ⟨_, u, hu, rfl⟩ := happ
    obtain ⟨_, rfl⟩ := Orm.move_ok hm
    have hl : u.1 = row.loaded := by
      simp only [List.nil_append, List.singleton_append, updates_audit, updates_write, updates_nil,
        List.mem_singleton] at hu
      rw [hu]
      rfl
    rw [hl]
    exact (hknows hpayment raw (hbody ▸ hraw)).mono
      (fun _ hx => hseen (List.mem_append_left _ (List.mem_append_left _ hx)))
  · refine vetting_loadTxn fun r q₃ => ?_
    split
    · exact Prog.conforms_seq (confirm_capture_vetting provider _) fun _ _ _ => trivial
    · trivial

theorem checkEvent_vetting (provider : RazorpayAdapter) {raw : String} {t : ProviderTransaction}
    {auth : BoundedAuthorization} {e : WebhookEvent} (order_id : String) {rows terms : DB}
    (hbody : raw ≠ "") (hraw : ∀ raw', q.body = some raw' → raw' = raw)
    (hparsed : ∀ event_id target,
      bindText (e.id.orElse (.str (H.sha256_hex raw))) = some (some event_id) →
      eventTarget e.event_type = some target →
      parseDelivery H raw = some ⟨e, order_id, event_id, target⟩)
    (hrows : rows ∈ q.seen) (ht : t ∈ rows.txns) (hterms : terms ∈ q.seen)
    (hauth : terms.authorizations.find? (fun a => a.authorization_id == t.authorization_id) =
      some auth) :
    (checkEvent H provider raw (Orm.fresh t) auth e).Conforms (vetting H) (fun _ _ => True) q := by
  refine vetting_query fun w₁ => ?_
  split
  · trivial
  · exact rejectEvent_vetting _ _ _ _ _
  next horg =>
  split
  · next event_id hid =>
    refine vetting_query fun w₂ => ?_
    split
    · trivial
    split
    · trivial
    next target htarget =>
    split
    · trivial
    · exact rejectEvent_vetting _ _ _ _ _
    next hvalues =>
    refine applyEvent_vetting provider auth fun hpayment raw' hraw' => ?_
    rw [hraw raw' hraw']
    refine ⟨⟨e, order_id, event_id, target⟩, rows, Vetting.looked_of_mem (Vetting.looked_of_mem hrows _) _,
      w₁.db, Vetting.looked_of_mem (q.mem_looked w₁) _, terms,
      Vetting.looked_of_mem (Vetting.looked_of_mem hterms _) _, ?_⟩
    exact ⟨hbody, hparsed _ _ hid htarget, hpayment, ⟨t, ht, rfl, horg⟩, ⟨auth, hauth, hvalues⟩⟩
  · trivial

/-- **A delivery knows what it applies.** -/
theorem razorpay_webhook_vetting (raw signature : String)
    (hraw : ∀ raw', q.body = some raw' → raw' = raw) :
    (razorpay_webhook H raw signature).Conforms (vetting H) (fun _ _ => True) q := by
  unfold razorpay_webhook
  split
  · trivial
  next hbody =>
  split
  · trivial
  next event hjson =>
  split
  · trivial
  next e hread =>
  split
  · trivial
  next order_id horder =>
  refine vetting_query fun w₁ => vetting_query fun w₂ => ?_
  split
  · trivial
  next provider hprovider =>
  split
  · trivial
  next hsigned =>
  split
  · trivial
  next order_id =>
  refine vetting_query fun w₃ => ?_
  split
  · trivial
  next found hfound =>
  refine vetting_query fun w₄ => ?_
  split
  · trivial
  next auth hauth =>
  have hseen : ∀ db ∈ [w₁.db, w₃.db, w₄.db], db ∈ ((((q.looked w₁).looked w₂).looked w₃).looked w₄).seen := by
    intro db hdb
    simp only [Vetting.looked, List.append_assoc, List.mem_append, List.mem_cons] at hdb ⊢
    tauto
  -- the row the session already held, or the one found now
  obtain ⟨rows, hrows, ht⟩ : ∃ rows ∈ [w₁.db, w₃.db, w₄.db],
      identity (txnByOrder w₁.db order_id) found ∈ rows.txns := by
    have hmem : found ∈ w₃.db.txns := List.mem_of_find?_eq_some hfound
    unfold identity
    split
    · next t hheld =>
      split
      · exact ⟨w₁.db, by simp, List.mem_of_find?_eq_some hheld⟩
      · exact ⟨w₃.db, by simp, hmem⟩
    · exact ⟨w₃.db, by simp, hmem⟩
  refine checkEvent_vetting provider order_id hbody hraw (fun event_id target hid htarget => ?_)
    (hseen rows hrows) ht (hseen w₄.db (by simp)) hauth
  exact parseDelivery_eq_some.mpr ⟨event, hjson, hread, horder, hid, htarget⟩

end

/-! ## Every run -/

/-- The `i`-th request, before it has looked at anything. -/
def vettingAt (reqs : List Request) (i : Nat) : Vetting := ⟨bodyAt reqs i, []⟩

/-- Settlement requests keep to the desk, and their deliveries look before they apply. -/
theorem start_vetting (H : Host) {reqs : List Request} (hreqs : ∀ r ∈ reqs, r.settles = true)
    (w : World) :
    (Pool.start w (reqs.map (handler H))).Follows ((desk H).prod (vetting H)) (fun _ _ _ => True)
      fun i => (Desk.empty (roleAt reqs i), vettingAt reqs i) := by
  intro i p hp
  have hdesk := start_follows H hreqs w i p hp
  have hvetting : p.Conforms (vetting H) (fun _ _ => True) (vettingAt reqs i) := by
    simp only [Pool.start, List.getElem?_map, Option.map_eq_some_iff] at hp
    obtain ⟨r, hr, rfl⟩ := hp
    cases r with
    | webhook raw signature =>
      refine razorpay_webhook_vetting raw signature fun raw' h => ?_
      simpa [vettingAt, bodyAt, hr] using h.symm
    | _ => exact vetting_of_none _ (by simp [vettingAt, bodyAt, hr])
  exact Prog.conforms_mono (fun _ _ _ => trivial) (Prog.conforms_prod hdesk hvetting)

/-- What holds throughout a run of settlement requests: everything anybody looked at,
and everything found out before an event was applied, is still so. -/
structure Vetted (H : Host) (reqs : List Request) (w : World) (qs : Nat → Desk × Vetting)
    (tr : List (Event World Stmt Call Answer)) : Prop where
  keyed : w.db.Keyed
  seen : ∀ i, ∀ db ∈ (qs i).2.seen, db.Onward w.db
  body : ∀ i, (qs i).2.body = bodyAt reqs i
  applied : ∀ ev ∈ tr, ∀ i id raw, Applied i id ev → bodyAt reqs i = some raw →
    ∃ d, Fits H raw d id w.db w.db w.db

namespace Vetted

variable {H : Host} {reqs : List Request} {w w' : World} {qs : Nat → Desk × Vetting}
  {tr : List (Event World Stmt Call Answer)} {i : Nat}

/-- A step to a later database. -/
theorem update {q' : Desk × Vetting} {ev : Event World Stmt Call Answer}
    (h : Vetted H reqs w qs tr) (hon : w.db.Onward w'.db) (hkeyed : w'.db.Keyed)
    (hseen : ∀ db ∈ q'.2.seen, db ∈ (qs i).2.seen ∨ db = w.db)
    (hbody : q'.2.body = (qs i).2.body)
    (hev : ∀ j id raw, Applied j id ev → bodyAt reqs j = some raw →
      ∃ d, Fits H raw d id w.db w.db w.db) :
    Vetted H reqs w' (Function.update qs i q') (tr ++ [ev]) := by
  refine ⟨hkeyed, fun j db hdb => ?_, fun j => ?_, fun ev' hev' j id raw happ hraw => ?_⟩
  · by_cases hji : j = i
    · subst hji
      rw [Function.update_self] at hdb
      rcases hseen db hdb with hold | rfl
      · exact (h.seen j db hold).trans hon
      · exact hon
    · rw [Function.update_of_ne hji] at hdb
      exact (h.seen j db hdb).trans hon
  · by_cases hji : j = i
    · subst hji
      rw [Function.update_self, hbody]
      exact h.body j
    · rw [Function.update_of_ne hji]
      exact h.body j
  · have hnow : ∃ d, Fits H raw d id w.db w.db w.db := by
      rcases List.mem_append.mp hev' with hold | hnew
      · exact h.applied ev' hold j id raw happ hraw
      · exact hev j id raw (List.mem_singleton.mp hnew ▸ happ) hraw
    obtain ⟨d, hfits⟩ := hnow
    exact ⟨d, hfits.onward hon hon hon⟩

theorem stmt {s : Stmt} {q' : Desk × Vetting} (h : Vetted H reqs w qs tr)
    (hs : ((desk H).prod (vetting H)).stmt (qs i) s w q') :
    Vetted H reqs (w.exec i s) (Function.update qs i q') (tr ++ [.stmt i s w]) := by
  obtain ⟨⟨hallow, _⟩, hvet, hq⟩ := hs
  refine h.update (exec_onward hallow i w) (exec_keyed hallow h.keyed i) ?_ (by rw [hq]; rfl) ?_
  · intro db hdb
    rw [hq] at hdb
    rcases List.mem_append.mp hdb with hdb | hdb
    · exact .inl hdb
    · exact .inr (List.mem_singleton.mp hdb)
  · intro j id raw happ hraw
    cases s with
    | commit ws =>
      obtain ⟨rfl, _, happ⟩ := happ
      obtain ⟨d, rows, hr, accounts, ha, terms, ht, hfits⟩ :=
        hvet ws raw id rfl ((h.body i).trans hraw) happ
      exact ⟨d, hfits.onward (h.seen i rows hr) (h.seen i accounts ha) (h.seen i terms ht)⟩
    | _ => exact happ.elim

theorem call {c : Call} {a : Answer} {q' : Desk × Vetting} (h : Vetted H reqs w qs tr)
    (hc : ((desk H).prod (vetting H)).call (qs i) c a q') :
    Vetted H reqs w (Function.update qs i q') (tr ++ [.call i c a w]) := by
  obtain ⟨_, hq⟩ := hc
  have hq' : q'.2 = (qs i).2 := hq
  refine h.update (.refl _) h.keyed ?_ (by rw [hq']) (fun _ _ _ happ => happ.elim)
  intro db hdb
  rw [hq'] at hdb
  exact .inl hdb

theorem die {x : Option Call} (h : Vetted H reqs w qs tr) :
    Vetted H reqs (w.rollback i) (Function.update qs i (qs i)) (tr ++ [.died i x]) := by
  refine h.update (onward_rollback i w) ?_ (fun db hdb => .inl hdb) rfl
    (fun _ _ _ happ => happ.elim)
  unfold DB.Keyed
  rw [rollback_txns]
  exact h.keyed

end Vetted

/-- In every reachable pool what was found out about an applied event is still so. -/
theorem reach_vetted {H : Host} {reqs : List Request} (hreqs : ∀ r ∈ reqs, r.settles = true)
    {w : World} (hkeyed : w.db.Keyed) {c : Pool World Stmt Call Answer Reply}
    (h : Pool.Reach machine Pool.Free (Pool.start w (reqs.map (handler H))) c) :
    ∃ qs, Vetted H reqs c.store qs c.trace := by
  have hstart : Vetted H reqs w (fun i => (Desk.empty (roleAt reqs i), vettingAt reqs i)) [] :=
    ⟨hkeyed, fun _ _ hdb => absurd hdb List.not_mem_nil, fun _ => rfl,
      fun _ hev => absurd hev List.not_mem_nil⟩
  obtain ⟨qs, hJ, _⟩ := Pool.sim (J := Vetted H reqs)
    (fun _ _ _ _ _ _ hJ _ hs => hJ.stmt hs) (fun _ _ _ _ _ _ _ hJ _ hc => hJ.call hc)
    (fun _ _ _ _ _ hJ _ _ => ⟨_, hJ.die⟩)
    (fun _ _ _ _ hJ => ⟨hJ.keyed, hJ.seen, hJ.body, hJ.applied⟩)
    hstart (start_vetting H hreqs w) h
  exact ⟨qs, hJ⟩

/-- **Webhook replay.** After any run of settlement requests, however interleaved, a
spent delivery moves nothing when it comes again. And where its event was already
applied to a transaction that its order still names, with the signature still valid
there, being spent is also the only thing that keeps it from being applied again. -/
theorem webhook_replay {H : Host} {reqs : List Request} (hreqs : ∀ r ∈ reqs, r.settles = true)
    {w : World} (hkeyed : w.db.Keyed) {c : Pool World Stmt Call Answer Reply}
    (h : Pool.Reach machine Pool.Free (Pool.start w (reqs.map (handler H))) c)
    {i : Nat} {id raw signature : String} (hraw : bodyAt reqs i = some raw)
    {ev : Event World Stmt Call Answer} (hev : ev ∈ c.trace) (happlied : Applied i id ev)
    (answers : List Answer) (session : Nat) :
    (Spent H raw c.store.db → Unmoved c.store.db
      (Server.serve H (.webhook raw signature) answers c.store session).store.db) ∧
    (Redelivers H raw signature c.store.db id →
      (Unmoved c.store.db
        (Server.serve H (.webhook raw signature) answers c.store session).store.db ↔
          Spent H raw c.store.db)) := by
  refine ⟨fun hspent => spent_unmoved hspent signature answers, ?_⟩
  rintro ⟨d, t, provider, hparsed, hfound, hid, haccount, hsigned⟩
  refine ⟨fun hunmoved d' hparsed' t' hfound' => ?_,
    fun hspent => spent_unmoved hspent signature answers⟩
  obtain rfl : d' = d := Option.some.inj (hparsed'.symm.trans hparsed)
  obtain rfl : t' = t := Option.some.inj (hfound'.symm.trans hfound)
  by_contra hnot
  obtain ⟨hunseen, htarget⟩ := not_or.mp hnot
  -- everything else the delivery has to pass, it passed when it was applied
  obtain ⟨qs, hJ⟩ := reach_vetted hreqs hkeyed h
  obtain ⟨d₀, hfits⟩ := hJ.applied ev hev i id raw happlied hraw
  obtain rfl : d₀ = d' := Option.some.inj (hfits.parsed.symm.trans hparsed)
  obtain ⟨_, _, _, _, hevent, htargetOf⟩ := parseDelivery_eq_some.mp hparsed
  obtain ⟨t₁, ht₁, hid₁, horg⟩ := hfits.org
  obtain rfl : t₁ = t' := hJ.keyed.eq ht₁ (List.mem_of_find?_eq_some hfound) (hid₁.trans hid.symm)
  obtain ⟨auth, hstored, hvalues⟩ := hfits.values
  refine unspent_moved ⟨hfits.body, hparsed, hfound, haccount, hsigned, hid ▸ hstored, horg, hevent,
    fun t' ht' heq => hunseen ⟨t', ht', heq⟩, htargetOf, hvalues⟩ hfits.payment
    (not_not.mp htarget) answers hunmoved

/-- A payment event on the order of the sample transaction. -/
def notice (event id : String) : Json :=
  .dict [("event", .str event), ("id", .str id), ("payload", .dict [("payment", .dict [("entity",
    .dict [("order_id", .str "order"), ("amount", .int 100), ("currency", .str "INR"),
      ("id", .str "pay")])])])]

def noticesHost : Host :=
  Sample.host false [("authorized", notice "payment.authorized" "e1"),
    ("captured", notice "payment.captured" "e2")]

/-- The payment is authorized, then captured. -/
def notices : List Request := [.webhook "authorized" "authorized", .webhook "captured" "captured"]

def noticesWorld : World :=
  Sample.world (Sample.db [Sample.authorization 100]
    [Sample.txn .PROVIDER_SUBMITTED (some "order") none none])

def noticesStart : Pool World Stmt Call Answer Reply :=
  Pool.start noticesWorld (notices.map (handler noticesHost))

/-- The first event was applied. -/
def afterAuthorized : Pool World Stmt Call Answer Reply :=
  noticesStart.run machine (List.replicate 11 (.run 0 (.ok .null)))

/-- The second one too, and the provider denies the capture. -/
def afterDenial : Pool World Stmt Call Answer Reply :=
  afterAuthorized.run machine (List.replicate 18 (.run 1 (Sample.payment "failed")))

/-- Delivered again at once, the first event moves nothing. -/
theorem webhook_replay_at_once :
    Unmoved afterAuthorized.store.db (Server.serve noticesHost (.webhook "authorized" "authorized")
      [] afterAuthorized.store 2).store.db := by
  have hreach : Pool.Reach machine Pool.Free noticesStart afterAuthorized :=
    Pool.reach_run _ _ _ _ .start
  have hkeyed : noticesWorld.db.Keyed := List.nodup_singleton _
  obtain ⟨ev, hev, happlied⟩ : ∃ ev ∈ afterAuthorized.trace, Applied 0 "auth" ev := by decide
  refine (webhook_replay (by decide) hkeyed hreach (i := 0) rfl hev happlied [] 2).1 ?_
  intro d hd t _
  have hid : "e1" = d.event_id := Option.some.inj (congrArg (Option.map Delivery.event_id) hd)
  exact .inl ⟨_, List.mem_singleton_self _, congrArg some hid⟩

/-- Delivered again after the denial, the first event is applied a second time. -/
theorem webhook_applied_twice :
    Pool.Reach machine Pool.Free noticesStart afterDenial ∧
      (∃ ev ∈ afterDenial.trace, Applied 0 "auth" ev) ∧
      afterDenial.store.db.txns.map (fun t => (t.state, t.webhook_event_id)) =
        [(.PROVIDER_UNKNOWN, some "e2")] ∧
      (Server.serve noticesHost (.webhook "authorized" "authorized") [] afterDenial.store
        2).store.db.txns.map (fun t => (t.state, t.webhook_event_id)) =
        [(.PROVIDER_AUTHORIZED, some "e1")] ∧
      ¬ Unmoved afterDenial.store.db (Server.serve noticesHost
        (.webhook "authorized" "authorized") [] afterDenial.store 2).store.db := by
  refine ⟨Pool.reach_run _ _ _ _ (Pool.reach_run _ _ _ _ .start), by decide, rfl, rfl, fun h => ?_⟩
  have hstates := congrArg (List.map ProviderTransaction.state) h.1
  exact absurd hstates (by decide)

end Paari
