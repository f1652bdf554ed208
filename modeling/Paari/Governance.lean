import Paari.Accounting

/-!
# What is minted is delegated

`submit_intent` checks the delegation before it mints, except that the action
`payment.create` needs no grant; `mfa_verify` mints for an intent that was checked under
the delegation of its time, and checks none of it again. `minted_governed` says when
every authorization a run mints is within the delegation of that moment.
-/

namespace Paari

open Atomic

/-! ## The delegation of the moment -/

/-- `CAPABILITY_MAP.get(c, c)` -/
def CAPABILITY_MAP (c : String) : String :=
  if c = "make_payment" then "payment.create"
  else if c = "issue_refund_request" then "refund.request"
  else c

/-- The action was granted, under either of its names. -/
def Agent.delegates (g : Agent) (action : String) : Prop :=
  ∃ c, g.granted_capabilities.contains c = .ok true ∧ CAPABILITY_MAP c = CAPABILITY_MAP action

/-- The agent's delegation, as it stands, covers such a payment. -/
structure Covers (g : Agent) (now : Instant) (amount : Int) (currency action : String) : Prop where
  valid : ∀ v, g.valid_until = some v → now ≤ v
  positive : 0 < amount
  limit : amount ≤ g.payment_limit_minor_units
  currency : currency = g.currency
  action : g.delegates action

/-- The authorization has an active agent with an active parent, whose delegation covers
it and the action of its intent. -/
structure Governed (db : DB) (now : Instant) (a : BoundedAuthorization) (g : Agent)
    (action : String) : Prop where
  agent : db.agents.find? (fun b => b.agent_id == a.agent_id) = some g
  active : g.status = .active
  parent : ∃ p, parent_for db g = some p ∧ p.status = .active
  intent : ∃ j ∈ db.intents, j.intent_id = a.intent_id ∧ j.action = action
  covers : Covers g now a.amount_minor_units a.currency action

/-- Every authorization that is not yet in `w` is governed. -/
def Minted (w : World) (db : DB) : Prop :=
  ∀ a ∈ db.authorizations, (∀ b ∈ w.db.authorizations, b.authorization_id ≠ a.authorization_id) →
    ∃ g action, Governed db w.clock a g action

/-- What the delegation checks of `submit_payment_intent` let through. -/
theorem terms_of_refusal {g : Agent} {req : PaymentIntentRequest} {now : Instant}
    (h : delegationRefusal g req now = some none) :
    (∀ v, g.valid_until = some v → now ≤ v) ∧ 0 < req.amount_minor_units ∧
      req.amount_minor_units ≤ g.payment_limit_minor_units ∧ req.currency = g.currency ∧
      (g.granted_capabilities.contains req.action = .ok true ∨ req.action = "payment.create") := by
  unfold delegationRefusal at h
  dsimp only at h
  split at h
  · exact absurd h (by simp)
  next hvalid =>
  split at h
  · exact absurd h (by simp)
  next hpositive =>
  cases hcontains : g.granted_capabilities.contains req.action with
  | error e =>
    rw [hcontains] at h
    exact absurd h (by simp [Except.toOption])
  | ok delegated =>
    rw [hcontains] at h
    change (if _ then _ else _ : Option (Option (String × String))) = _ at h
    split at h
    · exact absurd h (by simp)
    next hgrant =>
    split at h
    · exact absurd h (by simp)
    next hlimit =>
    split at h
    · exact absurd h (by simp)
    next hcurrency =>
    refine ⟨fun v hv => ?_, Int.not_le.mp hpositive, Int.not_lt.mp hlimit, by simpa using hcurrency, ?_⟩
    · rw [hv] at hvalid
      simpa using hvalid
    · cases delegated with
      | true => exact .inl rfl
      | false => exact .inr (by simpa using hgrant)

/-- The checks of `submit_payment_intent`, its exemption apart. -/
theorem covers_of_refusal {g : Agent} {req : PaymentIntentRequest} {now : Instant}
    (h : delegationRefusal g req now = some none)
    (hexempt : req.action = "payment.create" → g.delegates "payment.create") :
    Covers g now req.amount_minor_units req.currency req.action := by
  obtain ⟨hvalid, hpositive, hlimit, hcurrency, hgrant⟩ := terms_of_refusal h
  refine ⟨hvalid, hpositive, hlimit, hcurrency, ?_⟩
  rcases hgrant with hcontains | haction
  · exact ⟨req.action, hcontains, rfl⟩
  · rw [haction]
    exact hexempt haction

/-! ## Steps that mint nothing -/

section
variable {w : World} {db db' : DB}

/-- The delegations are as they were, and no authorization was added. -/
structure Unminted (w : World) (db : DB) : Prop where
  agents : db.agents = w.db.agents
  parents : db.parents = w.db.parents
  terms : db.authorizations.map BoundedAuthorization.terms =
    w.db.authorizations.map BoundedAuthorization.terms

theorem Unminted.refl (w : World) : Unminted w w.db := ⟨rfl, rfl, rfl⟩

/-- Rows of the same terms stand for each other. -/
theorem same_terms {as bs : List BoundedAuthorization}
    (h : as.map BoundedAuthorization.terms = bs.map BoundedAuthorization.terms)
    {a : BoundedAuthorization} (ha : a ∈ as) : ∃ b ∈ bs, b.terms = a.terms :=
  List.mem_map.mp (h ▸ List.mem_map_of_mem ha)

theorem id_of_terms {a b : BoundedAuthorization} (h : b.terms = a.terms) :
    b.authorization_id = a.authorization_id := by
  have hid : b.terms.authorization_id = a.terms.authorization_id := by rw [h]
  exact hid

theorem minted_of_terms (h : db.authorizations.map BoundedAuthorization.terms =
    w.db.authorizations.map BoundedAuthorization.terms) : Minted w db := by
  intro a ha hnew
  obtain ⟨b, hb, heq⟩ := same_terms h ha
  exact absurd (id_of_terms heq) (hnew b hb)

/-- Usage counts do not matter. -/
theorem Minted.use (h : Minted w db) {as : List BoundedAuthorization}
    (hterms : as.map BoundedAuthorization.terms = db.authorizations.map BoundedAuthorization.terms) :
    Minted w { db with authorizations := as } := by
  intro a ha hnew
  obtain ⟨b, hb, heq⟩ := same_terms hterms ha
  have hagent : b.terms.agent_id = a.terms.agent_id := by rw [heq]
  have hintent : b.terms.intent_id = a.terms.intent_id := by rw [heq]
  have hamount : b.terms.amount_minor_units = a.terms.amount_minor_units := by rw [heq]
  have hcurrency : b.terms.currency = a.terms.currency := by rw [heq]
  obtain ⟨g, action, hg⟩ := h b hb fun c hc hcid => hnew c hc (hcid.trans (id_of_terms heq))
  refine ⟨g, action, ?_, hg.active, hg.parent, ?_, ?_⟩
  · exact hagent ▸ hg.agent
  · exact hintent ▸ hg.intent
  · exact hamount ▸ hcurrency ▸ hg.covers

theorem Minted.rollback {w' : World} (h : Minted w w'.db) (i : Nat) : Minted w (w'.rollback i).db := by
  rw [rollback_db]
  exact h.use (onward_rollback i w').terms

/-- A write to other tables. -/
def Write.Mintless (x : Write) : Prop :=
  x.table ≠ .agents ∧ x.table ≠ .parents ∧ x.table ≠ .authorizations

theorem unminted_stable (w : World) : Stable Write.Mintless (Unminted w) where
  write := by
    rintro db db' x ⟨hagents, hparents, hauths⟩ h hk
    have hframe := Frame.of_apply h
    exact ⟨(hframe.agents hagents).trans hk.agents, (hframe.parents hparents).trans hk.parents,
      (congrArg _ (hframe.authorizations hauths)).trans hk.terms⟩
  use := fun _ _ hterms hk => ⟨hk.agents, hk.parents, hterms.trans hk.terms⟩

theorem Write.Records.mintless {x : Write} (h : x.Records) : x.Mintless := by
  rcases h with ((⟨e, rfl, -⟩ | ⟨p, rfl⟩) | ⟨k, rfl⟩) | ⟨intent, rfl⟩ <;>
    exact ⟨nofun, nofun, nofun⟩

/-- An intent keeps its id and its action. -/
theorem apply_action {x : Write} {intent_id action : String} (h : db.apply x = some db')
    (hj : ∃ j ∈ db.intents, j.intent_id = intent_id ∧ j.action = action) :
    ∃ j ∈ db'.intents, j.intent_id = intent_id ∧ j.action = action := by
  obtain ⟨j, hj, hsame⟩ := hj
  rcases apply_intents h with ⟨i, _, heq, _⟩ | ⟨id, d, v, rs, _, heq⟩ | heq <;> rw [heq]
  · exact ⟨j, List.mem_append_left _ hj, hsame⟩
  · refine ⟨_, mem_updateWhere.mpr ⟨j, hj, rfl⟩, ?_⟩
    split <;> exact hsame
  · exact ⟨j, hj, hsame⟩

/-! ## A transaction that mints -/

/-- An authorization minted for an intent that the delegation covers. -/
theorem minted_commit {ws : List Write} {a : BoundedAuthorization} {g : Agent} {action : String}
    (hk : Unminted w db) (hws : ∀ x ∈ ws, x.Mintless ∨ x = .insertAuthorization a)
    (hagent : w.db.agents.find? (fun b => b.agent_id == a.agent_id) = some g)
    (hactive : g.status = .active) (hparent : ∃ p, parent_for w.db g = some p ∧ p.status = .active)
    (hintent : ∃ j ∈ db.intents, j.intent_id = a.intent_id ∧ j.action = action)
    (hcovers : Covers g w.clock a.amount_minor_units a.currency action)
    (hdb : db.applyAll ws = .ok db') : Minted w db' := by
  obtain ⟨hagents, hparents, hintent', hauths⟩ := applyAll_keeps_all
    (P := fun x => x.Mintless ∨ x = .insertAuthorization a)
    (K := fun db' => db'.agents = w.db.agents ∧ db'.parents = w.db.parents ∧
      (∃ j ∈ db'.intents, j.intent_id = a.intent_id ∧ j.action = action) ∧
      ∀ b ∈ db'.authorizations, b = a ∨ b ∈ db.authorizations)
    (fun mid mid' x hx hap hmid => by
      obtain ⟨hagents, hparents, hintent, hauths⟩ := hmid
      have hframe := Frame.of_apply hap
      have htables : x.table ≠ .agents ∧ x.table ≠ .parents := by
        rcases hx with hx | rfl
        · exact ⟨hx.1, hx.2.1⟩
        · exact ⟨nofun, nofun⟩
      refine ⟨(hframe.agents htables.1).trans hagents, (hframe.parents htables.2).trans hparents,
        apply_action hap hintent, fun b hb => ?_⟩
      rcases apply_authorizations hap with ⟨a', rfl, heq, _⟩ | heq
      · rw [heq] at hb
        rcases List.mem_append.mp hb with hb | hb
        · exact hauths b hb
        · rcases hx with hx | hx
          · exact absurd rfl hx.2.2
          · exact .inl ((List.mem_singleton.mp hb).trans (Write.insertAuthorization.inj hx))
      · exact hauths b (heq ▸ hb)) hws hdb
    ⟨hk.agents, hk.parents, hintent, fun b hb => .inr hb⟩
  intro b hb hnew
  rcases hauths b hb with rfl | hold
  · refine ⟨g, action, ?_, hactive, ?_, hintent', hcovers⟩
    · rw [hagents]
      exact hagent
    · unfold parent_for at hparent ⊢
      rw [hparents]
      exact hparent
  · -- an old authorization is not new
    obtain ⟨c, hc, heq⟩ := same_terms hk.terms hold
    exact absurd (id_of_terms heq) (hnew c hc)

end

/-! ## The two requests that mint -/

section
variable {H : Host} {w₀ w : World} {i : Nat} {calls : List (Call × Option Answer)}

/-- Everything the part mints is governed. -/
abbrev Mints {α : Type} (w₀ : World) (i : Nat) (p : Handler α) (calls : List (Call × Option Answer))
    (w : World) : Prop :=
  p.Wp (World.exec i) (fun w' _ _ => Minted w₀ w'.db) calls w

theorem Unminted.minted (h : Unminted w₀ w.db) : Minted w₀ w.db := minted_of_terms h.terms

variable {s : Session} {agent : Agent} {parent : ParentAuthority} {req : PaymentIntentRequest}

theorem deny_mints (hk : Unminted w₀ w.db) (hs : s.All Write.Aside) (check : String)
    (reasons : List String) : Mints w₀ i (deny H s agent req check reasons) calls w := by
  have hwrites : (deny H s agent req check reasons).Writes Write.Records fun _ => True :=
    deny_writes (fun _ h => .inl (.inl h)) (fun j => .inr ⟨j, rfl⟩) (fun x hx => .inl (hs x hx)) _ _ _ _
  exact Prog.wp_mono (fun _ _ _ h => minted_of_terms h.1.terms)
    (((unminted_stable w₀).mono fun _ h => h.mintless).wp hwrites hk)

/-- The agent that asks, as the checks found it. -/
structure Checked (w₀ : World) (agent : Agent) (req : PaymentIntentRequest) : Prop where
  row : w₀.db.agents.find? (fun b => b.agent_id == agent.agent_id) = some agent
  active : agent.status = .active
  parent : ∃ p, parent_for w₀.db agent = some p ∧ p.status = .active
  covers : Covers agent w₀.clock req.amount_minor_units req.currency req.action

theorem allow_mints (hk : Unminted w₀ w.db) (hs : s.All Write.Aside) (hslot : w.db.Unclaimed agent req)
    (hchecked : Checked w₀ agent req) (now : Instant) (results : List PolicyResult) :
    Mints w₀ i (allow H s agent parent req now results) calls w := by
  refine Prog.wp_bind (Prog.wp_mono ?_ (record_intent_wp
    ((unminted_stable w₀).mono fun _ h => h.mintless) hk hs hslot _))
  rintro w' c r ⟨hk', hintent⟩
  cases r with
  | none => exact hk'.minted
  | some intent =>
    obtain ⟨hmem, intent_id, created_at, heq⟩ := hintent intent rfl
    refine wp_mint hk'.minted fun a ha => ?_
    have hj : ∃ j ∈ w'.db.intents, j.intent_id = a.intent_id ∧ j.action = req.action :=
      ⟨intent, hmem, ha.intent.symm, by rw [heq]; rfl⟩
    have hrow : w₀.db.agents.find? (fun b => b.agent_id == a.agent_id) = some agent := by
      rw [ha.agent, heq]
      exact hchecked.row
    have hcovers : Covers agent w₀.clock a.amount_minor_units a.currency req.action := by
      rw [ha.amount, ha.currency, heq]
      exact hchecked.covers
    refine wp_record_audit (wp_commit (fun _ _ => hk'.minted.rollback i) fun db' hdb' => ?_)
    refine minted_commit hk' (Session.all_cons (.inr rfl) (Session.all_cons (.inl ?_)
      (Session.all_one (.inl ?_)))) hrow hchecked.active hchecked.parent hj hcovers hdb'
    -- the transaction's row and the event
    all_goals exact ⟨nofun, nofun, nofun⟩

theorem decide_intent_mints (hk : Unminted w₀ w.db) (hs : s.All Write.Aside)
    (hslot : w.db.Unclaimed agent req) (hchecked : Checked w₀ agent req) (now : Instant)
    (d : MandateDecision) : Mints w₀ i (decide_intent H s agent parent req now d) calls w := by
  refine wp_query ?_
  dsimp only
  split
  · refine Prog.wp_bind (Prog.wp_mono ?_ (record_intent_wp
      ((unminted_stable w₀).mono fun _ h => h.mintless) hk hs hslot _))
    rintro w' c r ⟨hk', -⟩
    cases r <;> exact hk'.minted
  · exact allow_mints hk hs hslot hchecked now _

theorem mandate_layer_mints (hk : Unminted w₀ w.db) (hs : s.All Write.Aside)
    (hslot : w.db.Unclaimed agent req) (hchecked : Checked w₀ agent req) (now : Instant)
    (policy : Host.MandatePolicy) :
    Mints w₀ i (mandate_layer H s agent parent req now policy) calls w := by
  have hstable : Stable Write.Aside fun db => Unminted w₀ db ∧ db.intents = w.db.intents :=
    ⟨fun db db' x hx h hk => ⟨(unminted_stable w₀).write db db' x
        (Write.Records.mintless (.inl hx)) h hk.1,
      (hx.intents h).trans hk.2⟩,
    fun db as hterms hk => ⟨(unminted_stable w₀).use db as hterms hk.1, hk.2⟩⟩
  refine Prog.wp_bind (Prog.wp_mono ?_ (hstable.wp (evaluate_mandate_writes hs _ _ _ _) ⟨hk, rfl⟩))
  rintro w' c r ⟨⟨hk', hintents⟩, hr⟩
  cases r with
  | none => exact hk'.minted
  | some r =>
    obtain ⟨d, pending⟩ := r
    have hs' : pending.All Write.Aside := hr _ rfl
    dsimp only
    split
    · exact deny_mints hk' hs' _ _
    · split
      · exact deny_mints hk' hs' _ _
      · split
        · exact deny_mints hk' hs' _ _
        · refine decide_intent_mints hk' hs' ?_ ?_ now _
          · unfold DB.Unclaimed
            rw [hintents]
            exact hslot
          · exact ⟨hchecked.row, hchecked.active, hchecked.parent, hchecked.covers⟩

/-- An agent whose request for the exempt action passes the checks of its delegation was
granted that action. -/
def Exempt (H : Host) (w : World) (ctx : RequestContext) (req : PaymentIntentRequest) : Prop :=
  req.action = "payment.create" → ∀ tok a,
    resolve_session_token H req.session_token ctx.authorization = .ok tok →
    Authenticates H w tok none a → delegationRefusal a.agent req w.clock = some none →
    a.agent.delegates "payment.create"

theorem submit_payment_intent_mints (ctx : RequestContext) (req : PaymentIntentRequest)
    (hexempt : Exempt H w ctx req) : Mints w i (submit_payment_intent H ctx req) calls w := by
  have hk := Unminted.refl w
  refine wp_authenticated hk.minted (fun _ => hk.minted) fun tok a htok ha => ?_
  have hs : a.pending.All Write.Aside := ha.pending.notes fun _ => .inl
  dsimp only
  split
  · exact hk.minted
  refine wp_now (wp_query ?_)
  split
  · exact wp_query hk.minted
  next hslot =>
  refine wp_query ?_
  split
  · exact deny_mints hk hs _ _
  split
  · exact deny_mints hk hs _ _
  split
  · exact hk.minted
  · exact deny_mints hk hs _ _
  next hrefusal =>
  split
  · exact hk.minted
  · refine mandate_layer_mints hk hs ?_ ?_ _ _
    · exact hslot
    refine ⟨?_, ha.active, ha.parent, ?_⟩
    · have hagent := ha.agent
      have hsub : some a.agent.agent_id = a.claims.sub := by simpa using List.find?_some hagent
      rw [← hsub] at hagent
      simpa using hagent
    · exact covers_of_refusal hrefusal fun haction => hexempt haction tok a htok ha hrefusal

/-- The delegation as it stands covers the intent that awaits its step-up. -/
def StillCovered (w : World) (req : MFAVerifyRequest) : Prop :=
  ∀ intent g, w.db.intents.find? (fun j => j.intent_id == req.intent_id) = some intent →
    intent.awaitsStepUp →
    w.db.agents.find? (fun a => a.agent_id == intent.agent_id) = some g → g.status = .active →
    Covers g w.clock intent.amount_minor_units intent.currency intent.action

theorem verify_mfa_challenge_mints (req : MFAVerifyRequest) (hcovered : StillCovered w req) :
    Mints w i (verify_mfa_challenge H req) calls w := by
  have hk := Unminted.refl w
  refine wp_query ?_
  split
  · exact hk.minted
  next intent hintent =>
  refine wp_query (wp_now ?_)
  split
  · exact hk.minted
  next challenge _ =>
  refine wp_query ?_
  split
  · exact hk.minted
  next agent hagent =>
  refine wp_query ?_
  split
  · exact hk.minted
  next parent hparent =>
  split
  · exact hk.minted
  · exact hk.minted
  obtain ⟨hfound, hawaits⟩ := Option.filter_eq_some_iff.mp hintent
  obtain ⟨hagent, hactive⟩ := Option.filter_eq_some_iff.mp hagent
  have hactive : agent.status = .active := by simpa using hactive
  obtain ⟨hparent, hpactive⟩ := Option.filter_eq_some_iff.mp hparent
  refine wp_mint hk.minted fun a ha => ?_
  have hj : ∃ j ∈ w.db.intents, j.intent_id = a.intent_id ∧ j.action = intent.action :=
    ⟨intent, List.mem_of_find?_eq_some hfound, ha.intent.symm, rfl⟩
  have hrow : w.db.agents.find? (fun b => b.agent_id == a.agent_id) = some agent := by
    rw [ha.agent]
    exact hagent
  have hcovers : Covers agent w.clock a.amount_minor_units a.currency intent.action := by
    rw [ha.amount, ha.currency]
    exact hcovered intent agent hfound hawaits hagent hactive
  refine wp_record_audit (wp_record_audit (wp_commit (fun _ _ => hk.minted.rollback i)
    fun db' hdb' => ?_))
  refine minted_commit hk (Session.all_cons (.inl ?_) (Session.all_cons (.inl ?_)
      (Session.all_cons (.inr rfl) (Session.all_cons (.inl ?_) (Session.all_cons (.inl ?_)
        (Session.all_one (.inl ?_)))))))
    hrow hactive ⟨parent, hparent, by simpa using hpactive⟩ hj hcovers hdb'
  -- the challenge, the decision, the transaction's row and two events
  all_goals exact ⟨nofun, nofun, nofun⟩

end

/-! ## Every run -/

/-- A request that uses no grant which the delegation of the moment does not give. -/
def Request.WithinDelegation (H : Host) (w : World) : Request → Prop
  | .submit_intent ctx req => Exempt H w ctx req
  | .mfa_verify req => StillCovered w req
  | _ => True

/-- Only two requests mint. -/
theorem Request.Allows.mintless {r : Request} {x : Write} (h : r.Allows x)
    (hsubmit : ∀ ctx req, r ≠ .submit_intent ctx req) (hverify : ∀ req, r ≠ .mfa_verify req) :
    ∀ a, x ≠ .insertAuthorization a := by
  rintro a rfl
  rcases h with hlogs | hmay
  · exact absurd hlogs (by simp [Write.Logs])
  · cases r with
    | submit_intent ctx req => exact absurd rfl (hsubmit ctx req)
    | mfa_verify req => exact absurd rfl (hverify req)
    | consume ctx id token => cases hmay
    | revoke_authorization ctx id token => cases hmay
    | webhook raw signature => cases hmay
    | refund ctx id req => cases hmay
    | reconcile ctx id token => cases hmay
    | batch n => cases hmay
    | _ => exact absurd hmay (by simp [Request.mayWrite, Write.Enrols])

theorem serve_minted {H : Host} {w : World} {r : Request} (answers : List Answer)
    (hok : r.WithinDelegation H w) : Minted w (Server.serve H r answers w).store.db := by
  have hserve : Mints w 0 (handler H r) [] w → Minted w (Server.serve H r answers w).store.db :=
    fun h => Server.serve_spec (Q := fun w' _ _ => Minted w w'.db) answers
      (Prog.wp_mono (fun _ _ _ h => h.rollback 0) h)
  have hother : (∀ ctx req, r ≠ .submit_intent ctx req) → (∀ req, r ≠ .mfa_verify req) →
      Minted w (Server.serve H r answers w).store.db := by
    intro hsubmit hverify
    have hstable : Stable r.Allows fun db => db.authorizations.map BoundedAuthorization.terms =
        w.db.authorizations.map BoundedAuthorization.terms :=
      ⟨fun db db' x hx h hk => by
        rcases apply_authorizations h with ⟨a, rfl, -⟩ | heq
        · exact absurd rfl (hx.mintless hsubmit hverify a)
        · rw [heq]
          exact hk, fun _ _ hterms hk => hterms.trans hk⟩
    exact minted_of_terms (hstable.serve answers 0 rfl)
  cases r with
  | submit_intent ctx req => exact hserve (submit_payment_intent_mints ctx req hok)
  | mfa_verify req => exact hserve (verify_mfa_challenge_mints req hok)
  | _ => exact hother (fun _ _ => by simp) fun _ => by simp

/-- **What is minted is within the delegation of the moment.** In every run of requests
handled one at a time, an authorization that a request adds has an active agent with an
active parent, and the agent's delegation as it then stands covers its amount, its
currency and the action of its intent, as long as the request does not use the exempt
action without a grant, or step up an intent that the delegation no longer covers. -/
theorem minted_governed {H : Host} (w : World) (steps : List Server.Step) (r : Request)
    (answers : List Answer) (hok : r.WithinDelegation H (Server.run H w steps)) :
    ∀ a ∈ (Server.serve H r answers (Server.run H w steps)).store.db.authorizations,
      (∀ b ∈ (Server.run H w steps).db.authorizations, b.authorization_id ≠ a.authorization_id) →
      ∃ g action, Governed (Server.serve H r answers (Server.run H w steps)).store.db
        (Server.run H w steps).clock a g action :=
  serve_minted answers hok

namespace Sample

/-- A fresh agent with one capability. -/
def capable (capability : String) : World :=
  world { db [] [] with agents := [agent [capability] 1000] }

/-- Its intent, under the exempt action. -/
def proposal : PaymentIntentRequest where
  session_token := "agent"
  agent_id := "agent"
  transaction_id := "trace"
  idempotency_key := "key"
  merchant := "shop"
  amount_minor_units := 100
  currency := "INR"
  action := "payment.create"
  merchant_category := none
  mandate_id := none
  llm := ⟨none, none, none, none⟩

/-- The database once that agent has submitted it. -/
def proposed (capability : String) : DB :=
  (Server.serve (host false []) (.submit_intent ctx proposal) []
    (Server.run (host false []) (capable capability) [])).store.db

end Sample

/-- An agent that may make payments. -/
theorem minted_governed_payment :
    ∃ a ∈ (Sample.proposed "make_payment").authorizations,
      ∃ g action, Governed (Sample.proposed "make_payment") 0 a g action := by
  refine ⟨_, List.mem_singleton_self _, minted_governed (Sample.capable "make_payment") []
    (.submit_intent Sample.ctx Sample.proposal) [] (fun _ tok a _ ha _ => ?_) _
    (List.mem_singleton_self _) nofun⟩
  have hagent := List.mem_singleton.mp (List.mem_of_find?_eq_some ha.agent)
  rw [hagent]
  exact ⟨"make_payment", rfl, rfl⟩

/-- An agent that may only ask for refunds gets a payment authorized. -/
theorem ungranted_minted : ∃ a ∈ (Sample.proposed "issue_refund_request").authorizations,
    (∀ b ∈ (Sample.capable "issue_refund_request").db.authorizations,
      b.authorization_id ≠ a.authorization_id) ∧
    ∀ g action, ¬ Governed (Sample.proposed "issue_refund_request") 0 a g action := by
  refine ⟨_, List.mem_singleton_self _, nofun, fun g action h => ?_⟩
  have hg : g = Sample.agent ["issue_refund_request"] 1000 := (Option.some.inj h.agent).symm
  obtain ⟨j, hj, -, haction⟩ := h.intent
  have hj : j.action = "payment.create" := by
    rw [List.mem_singleton.mp hj]
    rfl
  obtain ⟨c, hc, hmap⟩ := h.covers.action
  rw [hg] at hc
  have hc : "issue_refund_request" = c := by
    simpa [Sample.agent, Json.contains] using hc
  rw [← haction, hj, ← hc] at hmap
  exact absurd hmap (by decide)

end Paari
