import Paari.Alone

/-!
# Revocation reaches execution

An authorization rests on other rows: its agent, the agent's parent, the credential of
the session that uses it, its mandate, and its own unused use. `consume_calls` says
that a consume which goes on to a provider found all of them standing (`Ready`);
`gone_stays` that a row which is gone stays gone whatever is requested later; and
`revokes_gone` that each way to revoke leaves its row gone. Together: after a
revocation no provider is called for anything that rests on it.
-/

namespace Paari

open Atomic

/-! ## What an authorization rests on -/

/-- The mandate permits the authorization, as `_revalidate_execution` checks it. -/
structure Permits (H : Host) (w : World) (auth : BoundedAuthorization) (m : UserPaymentMandate) :
    Prop where
  active : m.status = .active
  window : m.valid_from ≤ w.clock ∧ w.clock ≤ m.expires_at
  signed : ∃ policy, H.mandate_policy = .ok policy ∧
    (present m.signature_b64 = true → ∃ rs, verify_mandate_signature H m = some (true, rs)) ∧
    (policy.require_signed_mandate = true → present m.signature_b64 = true)
  cap : auth.amount_minor_units ≤ m.max_per_transaction
  currency : H.upper auth.currency = H.upper m.currency
  merchant : m.allowed_merchants ≠ [] →
    H.casefold auth.merchant ∈ m.allowed_merchants.map H.casefold
  category : m.allowed_categories ≠ [] → ∃ i ∈ w.db.intents, i.intent_id = auth.intent_id ∧
    ∃ category, i.merchant_category = some category ∧ category ≠ "" ∧
      H.casefold category ∈ m.allowed_categories.map H.casefold

/-- Everything the authorization of this agent rests on stands. -/
structure Stands (H : Host) (w : World) (auth : BoundedAuthorization) (agent : Agent) : Prop where
  found : agent ∈ w.db.agents ∧ agent.agent_id = auth.agent_id ∧ agent.org_id = auth.org_id
  active : agent.status = .active
  parent : ∃ p ∈ w.db.parents, p.id = agent.parent_pk ∧ p.status = .active
  valid : ∀ v, agent.valid_until = some v → w.clock ≤ v
  /-- The most recently issued credential that is not revoked. -/
  current : ∃ c ∈ w.db.credentials, c.agent_pk = agent.id ∧ c.revoked = false ∧
    (∀ c' ∈ w.db.credentials, c'.agent_pk = agent.id → c'.revoked = false →
      c'.issued_at ≤ c.issued_at) ∧ w.clock ≤ c.expires_at
  unexpired : w.clock ≤ auth.expires_at
  mandate : ∀ id, auth.mandate_id = some id → id ≠ "" → ∃ m ∈ w.db.mandates,
    m.mandate_id = id ∧ m.agent_id = agent.agent_id ∧ m.org_id = agent.org_id ∧ Permits H w auth m

/-- The authorization is there and unused, the session's credential holds, and the rest
stands. -/
structure Ready (H : Host) (w : World) (ctx : RequestContext)
    (authorization_id session_token : String) (auth : BoundedAuthorization) (agent : Agent)
    (claims : SessionClaims) : Prop where
  stored : auth ∈ w.db.authorizations ∧ auth.authorization_id = authorization_id
  unused : auth.usage_count = 0 ∧ auth.max_usage = 1
  session : ∃ token, resolve_session_token H session_token ctx.authorization = .ok token ∧
    H.decode_session_token w.clock token = some claims
  credential : ∃ c ∈ w.db.credentials, claims.credential_id = some c.credential_id ∧
    c.revoked = false ∧ w.clock ≤ c.expires_at
  stands : Stands H w auth agent

/-! ## Revalidation, check by check -/

section
variable {H : Host} {w : World} {i : Nat} {calls : List (Call × Option Answer)}

/-- The fold of `currentCredential` keeps a latest credential. -/
theorem foldl_latest (cs : List Credential) : ∀ (best : Option Credential) (c : Credential),
    cs.foldl (fun best c => match best with
      | none => some c
      | some b => if b.issued_at < c.issued_at then some c else some b) best = some c →
    (best = some c ∨ c ∈ cs) ∧ (∀ b, best = some b → b.issued_at ≤ c.issued_at) ∧
      ∀ c' ∈ cs, c'.issued_at ≤ c.issued_at := by
  induction cs with
  | nil =>
    intro best c h
    refine ⟨.inl h, fun b hb => ?_, fun c' hc' => absurd hc' List.not_mem_nil⟩
    obtain rfl := Option.some.inj (hb.symm.trans h)
    exact Int.le_refl _
  | cons c₁ cs ih =>
    intro best c h
    rw [List.foldl_cons] at h
    obtain ⟨hfrom, hbest, hall⟩ := ih _ c h
    cases best with
    | none =>
      have h₁ := hbest c₁ rfl
      refine ⟨.inr ?_, fun b hb => absurd hb (by simp), ?_⟩
      · rcases hfrom with heq | hmem
        · exact List.mem_cons.mpr (.inl (Option.some.inj heq).symm)
        · exact List.mem_cons_of_mem _ hmem
      · intro c' hc'
        rcases List.mem_cons.mp hc' with rfl | hc'
        · exact h₁
        · exact hall c' hc'
    | some b =>
      dsimp only at hfrom hbest
      by_cases hlt : b.issued_at < c₁.issued_at
      · rw [if_pos hlt] at hfrom hbest
        have h₁ := hbest c₁ rfl
        refine ⟨.inr ?_, ?_, ?_⟩
        · rcases hfrom with heq | hmem
          · exact List.mem_cons.mpr (.inl (Option.some.inj heq).symm)
          · exact List.mem_cons_of_mem _ hmem
        · intro b' hb'
          obtain rfl := Option.some.inj hb'
          exact Int.le_trans (Int.le_of_lt hlt) h₁
        · intro c' hc'
          rcases List.mem_cons.mp hc' with rfl | hc'
          · exact h₁
          · exact hall c' hc'
      · rw [if_neg hlt] at hfrom hbest
        have hb := hbest b rfl
        refine ⟨?_, ?_, ?_⟩
        · rcases hfrom with heq | hmem
          · exact .inl heq
          · exact .inr (List.mem_cons_of_mem _ hmem)
        · intro b' hb'
          obtain rfl := Option.some.inj hb'
          exact hb
        · intro c' hc'
          rcases List.mem_cons.mp hc' with rfl | hc'
          · exact Int.le_trans (Int.not_lt.mp hlt) hb
          · exact hall c' hc'

theorem currentCredential_spec {db : DB} {pk : Nat} {c : Credential}
    (h : currentCredential db pk = some c) :
    c ∈ db.credentials ∧ c.agent_pk = pk ∧ c.revoked = false ∧
      ∀ c' ∈ db.credentials, c'.agent_pk = pk → c'.revoked = false → c'.issued_at ≤ c.issued_at := by
  obtain ⟨hfrom, -, hall⟩ := foldl_latest _ none c h
  rcases hfrom with heq | hmem
  · exact absurd heq (by simp)
  obtain ⟨hmem, hkeep⟩ := List.mem_filter.mp hmem
  simp only [Bool.and_eq_true, beq_iff_eq, Bool.not_eq_true'] at hkeep
  refine ⟨hmem, hkeep.1, hkeep.2, fun c' hc' hpk hrevoked => hall c' ?_⟩
  refine List.mem_filter.mpr ⟨hc', ?_⟩
  simp [hpk, hrevoked]

theorem check_mandate_signature_ok {m : UserPaymentMandate} {require_signed : Bool}
    {rs : List String} (h : check_mandate_signature H m require_signed = some (true, rs)) :
    (present m.signature_b64 = true → ∃ rs, verify_mandate_signature H m = some (true, rs)) ∧
      (require_signed = true → present m.signature_b64 = true) := by
  unfold check_mandate_signature at h
  split at h
  · next hpresent =>
    split at h
    · exact absurd h (by simp)
    · next hrequire =>
      refine ⟨fun hp => absurd hpresent (by simp [hp]), fun hr => absurd hr hrequire⟩
  · next hpresent =>
    have hp : present m.signature_b64 = true := by simpa using hpresent
    refine ⟨fun _ => ?_, fun _ => hp⟩
    obtain ⟨⟨valid, reasons⟩, hverify, heq⟩ := Option.map_eq_some_iff.mp h
    cases valid with
    | true => exact ⟨reasons, hverify⟩
    | false => exact absurd heq (by simp)

/-- The mandate block passes only on a mandate that permits the authorization. -/
theorem revalidate_mandate_wp (auth : BoundedAuthorization) (agent : Agent) (mandate_id : String) :
    (revalidate_mandate H auth agent mandate_id w.clock).Wp (World.exec i)
      (fun w' c r => w' = w ∧ c = calls ∧ ∀ u, r = some (.ok u) → ∃ m ∈ w.db.mandates,
        m.mandate_id = mandate_id ∧ m.agent_id = agent.agent_id ∧ m.org_id = agent.org_id ∧
          Permits H w auth m) calls w := by
  have hraise : ∀ (e : Reply) {P : Prop}, w = w ∧ calls = calls ∧ ∀ u : Unit,
      some (Except.error e) = some (.ok u) → P :=
    fun e _ => ⟨rfl, rfl, fun u h => absurd h (by simp)⟩
  refine wp_query ?_
  split
  · exact hraise _
  next m hm =>
  split
  · exact hraise _
  next policy hpolicy =>
  split
  · exact ⟨rfl, rfl, fun u h => absurd h (by simp)⟩
  · exact hraise _
  next hrefusal =>
  refine wp_query ?_
  split
  · exact hraise _
  next hcategory =>
  refine ⟨rfl, rfl, fun _ _ => ?_⟩
  obtain ⟨hfound, hactive⟩ := Option.filter_eq_some_iff.mp hm
  have hkey := List.find?_some hfound
  simp only [Bool.and_eq_true, beq_iff_eq] at hkey
  refine ⟨m, List.mem_of_find?_eq_some hfound, hkey.1.1, hkey.1.2, hkey.2, ?_⟩
  obtain ⟨hfrom, hexpires, ⟨rs, hsig⟩, hcap, hcurrency, hmerchant⟩ := mandateRefusal_none hrefusal
  have haccepted : categoryAccepted H m
      (w.db.intents.find? fun i => i.intent_id == auth.intent_id) = true := by
    simpa using hcategory
  refine ⟨by simpa using hactive, ⟨hfrom, hexpires⟩, ⟨policy, hpolicy, check_mandate_signature_ok hsig⟩,
    hcap, hcurrency, hmerchant, fun hne => ?_⟩
  -- a category that is set comes from an intent
  obtain ⟨hset, hlisted⟩ := categoryAccepted_listed haccepted hne
  cases hintent : w.db.intents.find? fun i => i.intent_id == auth.intent_id with
  | none => simp [hintent] at hset
  | some intent =>
    cases hvalue : intent.merchant_category with
    | none => simp [hintent, hvalue] at hset
    | some category =>
      rw [hintent, Option.bind_some, hvalue, Option.getD_some] at hset hlisted
      exact ⟨intent, List.mem_of_find?_eq_some hintent, by simpa using List.find?_some hintent,
        category, hvalue, hset, hlisted⟩

/-- `_revalidate_execution` passes only when everything stands. -/
theorem revalidate_execution_wp (auth : BoundedAuthorization) :
    (revalidate_execution H auth).Wp (World.exec i)
      (fun w' c r => w' = w ∧ c = calls ∧ ∀ agent, r = some (.ok agent) → Stands H w auth agent)
      calls w := by
  have hraise : ∀ (e : Reply) {P : Agent → Prop}, w = w ∧ calls = calls ∧ ∀ agent : Agent,
      some (Except.error e) = some (.ok agent) → P agent :=
    fun e _ => ⟨rfl, rfl, fun u h => absurd h (by simp)⟩
  refine wp_query (wp_now ?_)
  split
  · exact hraise _
  next agent hagent =>
  refine wp_query ?_
  split
  · exact hraise _
  next hparent =>
  split
  · exact hraise _
  next hvalid =>
  refine wp_query ?_
  split
  · exact hraise _
  next hcurrent =>
  split
  · exact hraise _
  next hexpires =>
  obtain ⟨hfound, hactive⟩ := Option.filter_eq_some_iff.mp hagent
  have hkey := List.find?_some hfound
  simp only [Bool.and_eq_true, beq_iff_eq] at hkey
  have hstands : (∀ id, auth.mandate_id = some id → id ≠ "" → ∃ m ∈ w.db.mandates,
      m.mandate_id = id ∧ m.agent_id = agent.agent_id ∧ m.org_id = agent.org_id ∧
        Permits H w auth m) → Stands H w auth agent := by
    intro hmandate
    refine ⟨⟨List.mem_of_find?_eq_some hfound, hkey⟩, by simpa using hactive, ?_, ?_, ?_,
      Int.not_lt.mp hexpires, hmandate⟩
    · simp only [Bool.not_eq_true', Bool.not_eq_false, Option.any_eq_true,
        decide_eq_true_eq] at hparent
      obtain ⟨p, hp, hstatus⟩ := hparent
      exact ⟨p, List.mem_of_find?_eq_some hp, by simpa using List.find?_some hp, hstatus⟩
    · intro v hv
      rw [hv] at hvalid
      simpa using hvalid
    · simp only [Bool.not_eq_true', Bool.not_eq_false, Option.any_eq_true,
        decide_eq_true_eq] at hcurrent
      obtain ⟨c, hc, hle⟩ := hcurrent
      obtain ⟨hmem, hpk, hrevoked, hlatest⟩ := currentCredential_spec hc
      exact ⟨c, hmem, hpk, hrevoked, hlatest, hle⟩
  split
  · next hnone =>
    refine ⟨rfl, rfl, fun a ha => ?_⟩
    obtain rfl := Except.ok.inj (Option.some.inj ha)
    refine hstands fun id hid hne => absurd hnone ?_
    simp [present, hid, hne]
  next hsome =>
  refine Prog.wp_bind (Prog.wp_mono ?_ (revalidate_mandate_wp auth agent _))
  rintro w' c r ⟨rfl, rfl, hr⟩
  rcases r with _ | e | u
  · exact ⟨rfl, rfl, fun a h => absurd h (by simp)⟩
  · exact hraise _
  · -- the mandate still permits it
    refine ⟨rfl, rfl, fun a ha => ?_⟩
    obtain rfl := Except.ok.inj (Option.some.inj ha)
    refine hstands fun id hid _ => ?_
    have := hr u rfl
    rwa [hid, Option.getD_some] at this

/-- The authorization the handler works on. -/
theorem stored_of_find {db : DB} {id : String} {auth : BoundedAuthorization}
    (h : db.authorizations.find? (fun a => a.authorization_id == id) = some auth) :
    auth ∈ db.authorizations ∧ auth.authorization_id = id :=
  ⟨List.mem_of_find?_eq_some h, by simpa using List.find?_some h⟩

/-- A reservation goes through on an unused authorization only. -/
theorem World.Orderly.unused (hw : w.Orderly) {auth : BoundedAuthorization} {id : String}
    (hstored : auth ∈ w.db.authorizations ∧ auth.authorization_id = id)
    (hreserved : w.reservable id = true) : auth.usage_count = 0 ∧ auth.max_usage = 1 := by
  obtain ⟨hmem, hid⟩ := hstored
  obtain ⟨_, hany⟩ := Bool.and_eq_true_iff.mp hreserved
  obtain ⟨a, ha, hboth⟩ := List.any_eq_true.mp hany
  simp only [Bool.and_eq_true, beq_iff_eq, decide_eq_true_eq] at hboth
  -- there is one row with that id
  obtain rfl : a = auth :=
    List.inj_on_of_nodup_map hw.keys.authorizations ha hmem (hboth.1.trans hid.symm)
  obtain ⟨hmax, husage⟩ := hw.single a ha
  omega

/-- **A consume that goes on to a provider found everything standing.** -/
theorem consume_calls (hw : w.Orderly) {ctx : RequestContext} {id session_token : String}
    {answers : List Answer}
    (hcalls : (Server.serve H (.consume ctx id session_token) answers w).calls ≠ []) :
    ∃ auth agent claims, Ready H w ctx id session_token auth agent claims := by
  refine Server.serve_spec (Q := fun _ calls _ => calls ≠ [] → ∃ auth agent claims,
    Ready H w ctx id session_token auth agent claims) answers ?_ hcalls
  show (consume_authorization H ctx id session_token).Wp _ _ _ _
  refine wp_query ?_
  split
  · exact fun h => absurd rfl h
  next auth hauth =>
  have hstored := stored_of_find hauth
  refine wp_authenticated (fun h => absurd rfl h) (fun _ h => absurd rfl h) fun tok a htok ha => ?_
  refine Prog.wp_bind (Prog.wp_mono ?_ (revalidate_execution_wp auth))
  rintro w' c r ⟨rfl, rfl, hr⟩
  match r with
  | none => exact fun h => absurd rfl h
  | some (.error e) => exact fun h => absurd rfl h
  | some (.ok agent) =>
    refine wp_reserve ?_
    split
    · exact fun h => absurd rfl h
    next hreserved =>
    have hready : Ready H w' ctx id session_token auth agent a.claims :=
      ⟨hstored, hw.unused hstored (by simpa using hreserved), ⟨tok, htok, ha.claims⟩,
        ha.credential, hr agent rfl⟩
    exact Prog.wp_mono (fun _ _ _ _ _ => ⟨auth, agent, a.claims, hready⟩)
      (Prog.wp_of_invariant (I := fun _ => True) (fun _ _ _ => trivial) _ _ trivial)

end

/-! ## Gone, and gone for good -/

/-- What an authorization can rest on, by the key of its row. -/
inductive Authority
  | agent (agent_id : String)
  | parent (pk : Nat)
  | mandate (mandate_id : String)
  | credential (credential_id : String)
  | authorization (authorization_id : String)

namespace Authority

/-- The row is there and grants nothing any more. -/
def Gone (db : DB) : Authority → Prop
  | agent id => Dead Agent.agent_id (·.status ≠ .active) id db.agents
  | parent pk => Dead ParentAuthority.id (·.status ≠ .active) pk db.parents
  | mandate id => Dead UserPaymentMandate.mandate_id (·.status ≠ .active) id db.mandates
  | credential id => Dead Credential.credential_id (·.revoked = true) id db.credentials
  | authorization id =>
    Dead BoundedAuthorization.authorization_id (fun a => a.max_usage ≤ a.usage_count) id
      db.authorizations

/-- Gone in the world: no open reservation can bring the use back either. -/
def Buried (w : World) (k : Authority) : Prop :=
  k.Gone w.db ∧ ∀ id, k = authorization id → ∀ r ∈ w.reserved, r.authorization_id ≠ id

end Authority

/-- The write does not make the row grant something again. -/
def Authority.Spares : Authority → Write → Prop
  | .parent _, .setParentStatus _ .active _ => False
  | .mandate _, .setMandateStatus _ .active _ => False
  | _, _ => True

/-- Every request but the approval of a parent, which can undo a rejection. -/
def Request.Governed : Request → Prop
  | .approve_parent _ _ => False
  | _ => True

/-- A request makes no row grant something again, but for the approval of a parent. -/
theorem Request.Allows.spares {r : Request} {x : Write} (h : r.Allows x) {k : Authority}
    (hk : r.Governed ∨ ∀ pk, k ≠ .parent pk) : k.Spares x := by
  have hlogs : x.Logs → k.Spares x := by
    rintro (⟨e, rfl⟩ | ⟨p, rfl⟩) <;> cases k <;> trivial
  have hsettles : x.Settles → k.Spares x := by
    intro hs
    cases hs <;> cases k <;> trivial
  rcases h with h | hmay
  · exact hlogs h
  cases x with
  | setParentStatus id status tier =>
    cases k with
    | parent pk =>
      have hr := hk.resolve_right fun h => h pk rfl
      cases status with
      | active => cases r <;> simp_all [Request.Governed, Request.mayWrite, Write.Mints, Write.Enrols]
      | _ => trivial
    | _ => trivial
  | setMandateStatus id status t =>
    cases k with
    | mandate id' =>
      cases status with
      | active => cases r <;> simp_all [Request.mayWrite, Write.Mints, Write.Enrols]
      | _ => trivial
    | _ => trivial
  | _ => cases k <;> trivial

theorem apply_gone {db db' : DB} {x : Write} {k : Authority} (hx : k.Spares x)
    (h : db.apply x = some db') (hk : k.Gone db) : k.Gone db' := by
  cases k with
  | agent id =>
    show Dead _ _ _ db'.agents
    rcases apply_agents h with ⟨a, _, heq, hnew⟩ | ⟨pk, r, _, heq⟩ | ⟨pk, _, heq⟩ | heq <;> rw [heq]
    · exact hk.append fun b hb => (hnew b hb).2
    · exact hk.update (fun _ => rfl) fun _ hd => hd
    · exact hk.update (fun _ => rfl) fun _ _ => nofun
    · exact hk
  | parent pk =>
    show Dead _ _ _ db'.parents
    rcases apply_parents h with ⟨p, _, heq, hnew⟩ | ⟨id, status, tier, rfl, heq⟩ |
      ⟨id, pem, _, heq⟩ | heq <;> rw [heq]
    · exact hk.append hnew
    · refine hk.update (fun _ => rfl) fun _ _ hactive => ?_
      obtain rfl : status = .active := hactive
      exact hx
    · exact hk.update (fun _ => rfl) fun _ hd => hd
    · exact hk
  | mandate id =>
    show Dead _ _ _ db'.mandates
    rcases apply_mandates h with ⟨m, _, heq, hnew⟩ | ⟨id', status, t, rfl, heq⟩ | heq <;> rw [heq]
    · exact hk.append hnew
    · refine hk.update (fun _ => rfl) fun _ _ hactive => ?_
      obtain rfl : status = .active := hactive
      exact hx
    · exact hk
  | credential id =>
    show Dead _ _ _ db'.credentials
    rcases apply_credentials h with ⟨c, _, heq, hnew⟩ | ⟨pk, _, heq⟩ | ⟨id', by_, _, heq⟩ | heq <;>
      rw [heq]
    · exact hk.append hnew
    · exact hk.update (fun _ => rfl) fun _ _ => rfl
    · exact hk.update (fun _ => rfl) fun _ _ => rfl
    · exact hk
  | authorization id =>
    show Dead _ _ _ db'.authorizations
    rcases apply_authorizations h with ⟨a, _, heq, hnew⟩ | heq <;> rw [heq]
    · exact hk.append hnew
    · exact hk

namespace Authority

section
variable {w : World} {k : Authority}

/-- A change of usage counts that spares the authorization in question. -/
theorem Gone.use {db : DB} {as : List BoundedAuthorization} (h : k.Gone db)
    (hauth : ∀ id, k = authorization id → Dead BoundedAuthorization.authorization_id
      (fun a => a.max_usage ≤ a.usage_count) id as) :
    k.Gone { db with authorizations := as } := by
  cases k with
  | authorization id => exact hauth id rfl
  | _ => exact h

theorem Buried.rollback (h : k.Buried w) (i : Nat) : k.Buried (w.rollback i) := by
  refine ⟨?_, fun id hid r hr => ?_⟩
  · rw [rollback_db]
    refine h.1.use fun id hid => ?_
    subst hid
    obtain ⟨⟨a₀, ha₀, hkey⟩, hall⟩ := h.1
    have hids : (w.rollback i).db.authorizations.map BoundedAuthorization.terms =
        w.db.authorizations.map BoundedAuthorization.terms := (onward_rollback i w).terms
    constructor
    · have hmem := hids ▸ List.mem_map_of_mem (f := BoundedAuthorization.terms) ha₀
      obtain ⟨a, ha, heq⟩ := List.mem_map.mp hmem
      exact ⟨a, ha, (congrArg BoundedAuthorization.authorization_id heq).trans hkey⟩
    · intro a' ha' hkey'
      obtain ⟨a, ha, hsame, hother, _⟩ := undo_rows _ w a' ha'
      have hid : a.authorization_id = id := by rw [hsame] at hkey'; exact hkey'
      -- no reservation names the row, so the rollback does not touch it
      rw [hother fun r hr hr' => h.2 id rfl r (List.mem_of_mem_filter hr) (hr'.trans hid)]
      exact hall a ha hid
  · rw [rollback_reserved] at hr
    exact h.2 id hid r (List.mem_of_mem_filter hr)

theorem Buried.exec (h : k.Buried w) {s : Stmt}
    (hs : ∀ ws, s = .commit ws → ∀ x ∈ ws, k.Spares x) (i : Nat) : k.Buried (w.exec i s) := by
  cases s with
  | select => exact h
  | fresh => exact h
  | rollback => exact h.rollback i
  | try_gate g =>
    unfold World.exec
    dsimp only
    split
    · exact h
    · exact h.rollback i
  | commit ws =>
    show k.Buried (w.commit i ws)
    unfold World.commit
    split
    · next db' hdb =>
      refine ⟨applyAll_keeps_all (fun _ _ _ hx hap hk => apply_gone hx hap hk) (hs ws rfl) hdb h.1,
        fun id hid r hr => h.2 id hid r (List.mem_of_mem_filter hr)⟩
    · exact h.rollback i
  | reserve id spend =>
    unfold World.exec
    dsimp only
    split
    · next hreservable =>
      obtain ⟨_, hany⟩ := Bool.and_eq_true_iff.mp hreservable
      obtain ⟨a, ha, hboth⟩ := List.any_eq_true.mp hany
      simp only [Bool.and_eq_true, beq_iff_eq, decide_eq_true_eq] at hboth
      -- the guarded update never matches a spent authorization
      have hne : ∀ id', k = authorization id' → id ≠ id' := by
        rintro id' rfl rfl
        have := h.1.2 a ha hboth.1
        omega
      refine ⟨h.1.use fun id' hid => ?_, fun id' hid r hr => ?_⟩
      · subst hid
        refine ⟨?_, fun a' ha' hkey => ?_⟩
        · obtain ⟨a₀, ha₀, hkey⟩ := h.1.1
          refine ⟨_, mem_updateWhere.mpr ⟨a₀, ha₀, rfl⟩, ?_⟩
          split <;> exact hkey
        · obtain ⟨a₁, ha₁, rfl⟩ := mem_updateWhere.mp ha'
          have hkey₁ : a₁.authorization_id = id' := by split at hkey <;> exact hkey
          rw [if_neg (by simpa [hkey₁] using (hne id' rfl).symm)]
          exact h.1.2 a₁ ha₁ hkey₁
      · rcases List.mem_cons.mp hr with rfl | hr
        · exact hne id' hid
        · exact h.2 id' hid r hr
    · exact h

end

end Authority

/-- **What is gone stays gone**, whatever is requested, short of approving a parent. -/
theorem gone_stays {H : Host} {w : World} {k : Authority} (h : k.Buried w) {r : Request}
    (hk : r.Governed ∨ ∀ pk, k ≠ .parent pk) (answers : List Answer) :
    k.Buried (Server.serve H r answers w).store :=
  serve_invariant (K := fun w' => k.Buried w')
    (fun _ _ hs h => h.exec (fun ws hws x hx => (hs ws hws x hx).spares hk) 0)
    (fun _ h => h.rollback 0) h

/-! ## Each way to revoke -/

/-- What a request takes away, by its outcome. -/
def Request.Revokes (w : World) (o : Prog.Outcome World Call Answer Reply) :
    Request → Authority → Prop
  | .revoke_agent id _ _, k => (∃ name, o.value = some (.agent_revoked name)) ∧ k = .agent id
  | .revoke_parent id _, k => o.value = some (.parent id .revoked) ∧
    ∃ p, w.db.parents.find? (fun p => p.parent_id == id) = some p ∧ k = .parent p.id
  | .revoke_mandate id _ _, k =>
    (∃ name, o.value = some (.mandate name .revoked)) ∧ k = .mandate id
  | .revoke_authorization _ id _, k =>
    (∃ name, o.value = some (.authorization_revoked name)) ∧ k = .authorization id
  -- a rotation: every live credential the agent had
  | .rotate_agent_key id _ _, k => (∃ name new, o.value = some (.rotated name new)) ∧
    ∃ a ∈ w.db.agents, a.agent_id = id ∧ ∃ c ∈ w.db.credentials,
      c.agent_pk = a.id ∧ c.revoked = false ∧ k = .credential c.credential_id
  -- a sweep: every active mandate that has run out
  | .sweep _, k => (∃ mandates reviews, o.value = some (.swept mandates reviews)) ∧
    ∃ m ∈ w.db.mandates, m.status = .active ∧ m.expires_at ≤ w.clock ∧ k = .mandate m.mandate_id
  -- a use: the authorization itself
  | .consume _ id _, k => o.calls ≠ [] ∧ k = .authorization id
  | _, _ => False

section
variable {H : Host} {w : World} {i : Nat} {k : Authority}

/-- After a commit no reservation of the session is left. -/
theorem Authority.Gone.released {db : DB} (h : k.Gone db) (hw : w.Busy i) :
    k.Buried ({ w with db := db }.release i) := by
  refine ⟨h, fun id _ r hr => ?_⟩
  have hsession := (List.mem_filter.mp hr).2
  exact absurd (hw.reserved r (List.mem_of_mem_filter hr)).1 (by simpa using hsession)

/-- A transaction that strikes the row. -/
theorem struck {x : Write} {J : DB → Prop} {ws : List Write} {db db' : DB}
    (hmem : x ∈ ws) (hspares : ∀ y ∈ ws, k.Spares y)
    (hJ : ∀ db db' y, y ∈ ws → y ≠ x → db.apply y = some db' → J db → J db')
    (hx : ∀ db db', db.apply x = some db' → J db → k.Gone db')
    (hdb : db.applyAll ws = .ok db') (h : J db) : k.Gone db' :=
  applyAll_brings (P := fun y => y ∈ ws) hJ hx
    (fun _ _ y hy hap hk => apply_gone (hspares y hy) hap hk) hmem (fun _ h => h) hdb h

/-- The row stays, whatever is written; this write strikes it. -/
theorem mandate_struck {id : String} {status : MandateStatus} {t : Option Instant}
    (hstatus : status ≠ .active) {ws : List Write} {db db' : DB}
    (hmem : .setMandateStatus id status t ∈ ws) (hspares : ∀ y ∈ ws, (Authority.mandate id).Spares y)
    (hdb : db.applyAll ws = .ok db') (hrow : ∃ m ∈ db.mandates, m.mandate_id = id) :
    (Authority.mandate id).Gone db' := by
  refine struck (J := fun db => ∃ m ∈ db.mandates, m.mandate_id = id) hmem hspares ?_ ?_ hdb hrow
  · rintro db db' y _ _ hap ⟨m, hm, hid⟩
    obtain ⟨m', hm', heq⟩ := List.mem_map.mp
      ((apply_mandate_ids hap).subset (List.mem_map_of_mem hm))
    exact ⟨m', hm', heq.trans hid⟩
  · rintro db db' hap hrow
    show Dead _ _ _ db'.mandates
    rw [← Option.some.inj hap]
    exact .strike hrow (fun _ => rfl) (fun m _ hid => by simpa using hid) fun _ => hstatus

theorem credential_struck {id : String} {ws : List Write} {db db' : DB}
    (hdb : db.applyAll ws = .ok db') (hmem : ∃ by_, .revokeCredential id by_ ∈ ws)
    (hrow : ∃ c ∈ db.credentials, c.credential_id = id) : (Authority.credential id).Gone db' := by
  obtain ⟨by_, hmem⟩ := hmem
  refine struck (J := fun db => ∃ c ∈ db.credentials, c.credential_id = id) hmem
    (fun _ _ => trivial) ?_ ?_ hdb hrow
  · rintro db db' y _ _ hap ⟨c, hc, hid⟩
    obtain ⟨c', hc', heq⟩ := List.mem_map.mp
      ((apply_credential_ids hap).subset (List.mem_map_of_mem hc))
    exact ⟨c', hc', heq.trans hid⟩
  · rintro db db' hap hrow
    show Dead _ _ _ db'.credentials
    rw [← Option.some.inj hap]
    exact .strike hrow (fun _ => rfl) (fun c _ hid => by simpa using hid) fun _ => rfl

theorem revoke_agent_wp (hw : w.Busy i) (id : String) (req : AgentRevokeRequest) (key : String) :
    (revoke_agent H id req key).Wp (World.exec i)
      (fun w' _ res => (∃ name, res = some (.agent_revoked name)) → (Authority.agent id).Buried w')
      [] w := by
  have hcommit : ∀ (agent : Agent) (pending : Session), agent ∈ w.db.agents →
      agent.agent_id = id → (∀ x ∈ pending, ∃ r, x = .insertRevocation r) →
      (commitRevocation agent pending).Wp (World.exec i)
        (fun w' _ res => (∃ name, res = some (.agent_revoked name)) →
          (Authority.agent id).Buried w') [] w := by
    intro agent pending hagent hid hpending
    refine wp_commit (fun _ _ h => absurd h (by simp)) fun db' hdb _ => ?_
    refine Authority.Gone.released ?_ hw
    refine struck (x := .revokeAgent agent.id) (J := fun db => db.agents = w.db.agents) (by simp)
      (fun _ _ => trivial) ?_ ?_ hdb rfl
    · intro db db' y hy hne hap heq
      refine ((Frame.of_apply hap).agents ?_).trans heq
      rcases List.mem_append.mp hy with hy | hy
      · obtain ⟨r, rfl⟩ := hpending y hy
        nofun
      · simp only [List.mem_cons, List.not_mem_nil, or_false] at hy
        rcases hy with rfl | rfl
        · exact absurd rfl hne
        · nofun
    · intro db db' hap heq
      show Dead _ _ _ db'.agents
      rw [← Option.some.inj hap]
      refine .strike ⟨agent, heq ▸ hagent, hid⟩ (fun _ => rfl) (fun a ha haid => ?_) fun _ => nofun
      -- one agent has that id, and it is the one whose row is struck
      obtain rfl : a = agent :=
        List.inj_on_of_nodup_map hw.keys.agents (heq ▸ ha) hagent (haid.trans hid.symm)
      exact beq_self_eq_true _
  have hexit : ∀ e : Reply, (∀ name, e ≠ .agent_revoked name) →
      (∃ name, some e = some (.agent_revoked name)) → (Authority.agent id).Buried w :=
    fun e hne ⟨name, h⟩ => absurd (Option.some.inj h) (hne name)
  refine wp_query ?_
  split
  · exact hexit _ fun _ => by simp [http]
  next agent hagent =>
  have hmem := List.mem_of_find?_eq_some hagent
  have hid : agent.agent_id = id := by simpa using List.find?_some hagent
  split
  · exact hcommit agent [] hmem hid fun x hx => absurd hx List.not_mem_nil
  split
  · refine wp_query ?_
    split
    · exact hexit _ fun _ => by simp [http]
    refine wp_now ?_
    split
    · exact hexit _ fun _ => by simp [http]
    refine wp_query ?_
    split
    · exact hexit _ fun _ => by simp [http]
    dsimp only
    split
    · exact fun ⟨_, h⟩ => absurd h (by simp)
    · exact hexit _ fun _ => by simp [http]
    · refine hcommit agent _ hmem hid fun x hx => ?_
      exact ⟨_, List.mem_singleton.mp hx⟩
  · exact hexit _ fun _ => by simp [http]

/-- A refused admin key is answered with an error. -/
theorem require_admin_org_error {key org : String} {e : Reply}
    (h : H.require_admin_org key org = .error e) : e.IsError := by
  unfold Host.require_admin_org at h
  split at h
  · exact ⟨_, (Except.error.inj h).symm⟩
  · split at h
    · exact ⟨_, (Except.error.inj h).symm⟩
    · exact absurd h (by simp)

theorem revoke_parent_wp (hw : w.Busy i) (id key : String) {p : ParentAuthority}
    (hp : w.db.parents.find? (fun p => p.parent_id == id) = some p) :
    (revoke_parent H id key).Wp (World.exec i)
      (fun w' _ res => res = some (.parent id .revoked) → (Authority.parent p.id).Buried w')
      [] w := by
  refine wp_query ?_
  rw [hp]
  refine wp_admin (fun e he h => ?_) (wp_query (wp_commit (fun _ _ h => absurd h (by simp)) ?_))
  · obtain ⟨x, rfl⟩ := require_admin_org_error he
    exact absurd h (by simp)
  intro db' hdb _
  refine Authority.Gone.released ?_ hw
  refine struck (x := .setParentStatus p.id .revoked none)
    (J := fun db => ∃ q ∈ db.parents, q.id = p.id) List.mem_cons_self ?_ ?_ ?_ hdb
    ⟨p, List.mem_of_find?_eq_some hp, rfl⟩
  · intro y hy
    rcases List.mem_cons.mp hy with rfl | hy
    · trivial
    · obtain ⟨c, _, rfl⟩ := List.mem_map.mp hy
      trivial
  · rintro db db' y _ _ hap ⟨q, hq, hid⟩
    obtain ⟨q', hq', heq⟩ := List.mem_map.mp ((apply_parent_pks hap).subset (List.mem_map_of_mem hq))
    exact ⟨q', hq', heq.trans hid⟩
  · rintro db db' hap hrow
    show Dead _ _ _ db'.parents
    rw [← Option.some.inj hap]
    exact .strike hrow (fun _ => rfl) (fun q _ hid => by simpa using hid) fun _ => nofun

theorem revoke_mandate_wp (hw : w.Busy i) (id reason key : String) :
    (revoke_user_payment_mandate H id reason key).Wp (World.exec i)
      (fun w' _ res => (∃ name, res = some (.mandate name .revoked)) →
        (Authority.mandate id).Buried w') [] w := by
  refine wp_query ?_
  split
  · exact fun ⟨_, h⟩ => absurd h (by simp [http])
  next m hm =>
  have hid : m.mandate_id = id := by simpa using List.find?_some hm
  refine wp_admin (fun e he ⟨_, h⟩ => ?_) ?_
  · obtain ⟨x, rfl⟩ := require_admin_org_error he
    exact absurd h (by simp)
  refine wp_now (wp_query (wp_record_audit (wp_commit (fun _ _ h => absurd h (by simp)) ?_)))
  intro db' hdb _
  rw [← hid]
  refine (@mandate_struck _ .revoked _ nofun _ _ _ List.mem_cons_self ?_ hdb
    ⟨m, List.mem_of_find?_eq_some hm, rfl⟩).released hw
  exact Session.all_cons trivial (Session.all_one trivial)

/-- A guarded update that goes through leaves no use. -/
theorem reserve_spends (hw : w.Orderly) {id : String} (spend : Spend)
    (hreserved : w.reservable id = true) :
    (Authority.authorization id).Gone (w.exec i (.reserve id spend)).db := by
  obtain ⟨_, hany⟩ := Bool.and_eq_true_iff.mp hreserved
  obtain ⟨a, ha, hboth⟩ := List.any_eq_true.mp hany
  simp only [Bool.and_eq_true, beq_iff_eq, decide_eq_true_eq] at hboth
  unfold World.exec
  dsimp only
  rw [if_pos hreserved]
  show Dead _ _ _ (updateWhere _ _ _)
  refine ⟨⟨_, mem_updateWhere.mpr ⟨a, ha, rfl⟩, ?_⟩, fun a' ha' hkey => ?_⟩
  · split <;> exact hboth.1
  · obtain ⟨b, hb, rfl⟩ := mem_updateWhere.mp ha'
    have hid : b.authorization_id = id := by split at hkey <;> exact hkey
    obtain ⟨hmax, husage⟩ := hw.single b hb
    rw [if_pos (by simpa using hid)]
    show b.max_usage ≤ spend.usage b
    cases spend with
    | consume =>
      show b.max_usage ≤ b.usage_count + 1
      omega
    | revoke => exact Int.le_refl _

/-- No transaction gives a use back. -/
theorem spent_stays {ws : List Write} {db db' : DB} {id : String} (hdb : db.applyAll ws = .ok db')
    (h : (Authority.authorization id).Gone db) : (Authority.authorization id).Gone db' :=
  applyAll_keeps_all (P := fun _ => True)
    (fun _ _ _ _ hap hk => apply_gone (k := .authorization id) trivial hap hk)
    (fun _ _ => trivial) hdb h

theorem revoke_authorization_wp (hw : w.Orderly) (ctx : RequestContext) (id token : String) :
    (revoke_authorization H ctx id token).Wp (World.exec i)
      (fun w' _ res => (∃ name, res = some (.authorization_revoked name)) →
        (Authority.authorization id).Buried w') [] w := by
  refine wp_query ?_
  split
  · exact fun ⟨_, h⟩ => absurd h (by simp [http])
  next auth hauth =>
  refine wp_authenticated (fun ⟨_, h⟩ => absurd h (by simp)) (fun _ ⟨_, h⟩ => absurd h (by simp))
    fun tok a htok ha => ?_
  refine wp_reserve ?_
  split
  · exact fun ⟨_, h⟩ => absurd h (by simp [http])
  next hreserved =>
  have hgone := reserve_spends (i := i) hw .revoke (by simpa using hreserved)
  refine wp_record_audit (wp_commit (fun _ _ ⟨_, h⟩ => absurd h (by simp)) fun db' hdb _ => ?_)
  exact (spent_stays hdb hgone).released
    ((hw.busy i).exec (s := .reserve id .revoke) fun ws h => absurd h (by simp))

/-- A consume that goes on to a provider has used the authorization up. -/
theorem consume_wp (hw : w.Orderly) (ctx : RequestContext) (id token : String) :
    (consume_authorization H ctx id token).Wp (World.exec i)
      (fun w' calls _ => calls ≠ [] → (Authority.authorization id).Buried w') [] w := by
  refine wp_query ?_
  split
  · exact fun h => absurd rfl h
  next auth hauth =>
  refine wp_authenticated (fun h => absurd rfl h) (fun _ h => absurd rfl h) fun tok a htok ha => ?_
  refine Prog.wp_bind (Prog.wp_mono ?_ (revalidate_execution_wp auth))
  rintro w' c r ⟨rfl, rfl, -⟩
  match r with
  | none => exact fun h => absurd rfl h
  | some (.error e) => exact fun h => absurd rfl h
  | some (.ok agent) =>
    refine wp_reserve ?_
    split
    · exact fun h => absurd rfl h
    next hreserved =>
    have hgone := reserve_spends (i := i) hw .consume (by simpa using hreserved)
    refine wp_query (wp_commit (fun _ _ h => absurd rfl h) fun db' hdb => ?_)
    have hburied := (spent_stays hdb hgone).released
      ((hw.busy i).exec (s := .reserve id .consume) fun ws h => absurd h (by simp))
    have hkeep : ∀ (s : Stmt) (w' : World), (Authority.authorization id).Buried w' →
        (Authority.authorization id).Buried (World.exec i s w') :=
      fun s w' h => h.exec (fun _ _ _ _ => trivial) i
    refine Prog.wp_mono ?_ (Prog.wp_of_invariant hkeep _ _ hburied)
    exact fun _ _ _ h _ => h

theorem rotationTimes_error {d : Json} {e : Reply} (h : rotationTimes H d = .error e) :
    e.IsError := by
  unfold rotationTimes at h
  dsimp only at h
  split at h
  · exact absurd h (by simp)
  · exact ⟨_, (Except.error.inj h).symm⟩
  · exact ⟨_, (Except.error.inj h).symm⟩

/-- The agent's live credentials go with its old key. -/
theorem rotate_agent_key_wp (hw : w.Busy i) (id : String) (req : RotateKeyRequest) (key : String)
    {a : Agent} (ha : a ∈ w.db.agents) (hid : a.agent_id = id) {c : Credential}
    (hc : c ∈ w.db.credentials) (hpk : c.agent_pk = a.id) (hlive : c.revoked = false) :
    (rotate_agent_key H id req key).Wp (World.exec i)
      (fun w' _ res => (∃ name new, res = some (.rotated name new)) →
        (Authority.credential c.credential_id).Buried w') [] w := by
  have hexit : ∀ x, (∃ name new, some (Reply.error x) = some (.rotated name new)) →
      (Authority.credential c.credential_id).Buried w := fun _ ⟨_, _, h⟩ => absurd h (by simp)
  have hdied : (∃ name new, (none : Option Reply) = some (.rotated name new)) →
      (Authority.credential c.credential_id).Buried w := fun ⟨_, _, h⟩ => absurd h (by simp)
  refine wp_query ?_
  split
  · exact hexit _
  next agent hagent =>
  obtain ⟨hfound, _⟩ := Option.filter_eq_some_iff.mp hagent
  obtain rfl : agent = a := List.inj_on_of_nodup_map hw.keys.agents
    (List.mem_of_find?_eq_some hfound) ha ((by simpa using List.find?_some hfound : _ = id).trans
      hid.symm)
  refine wp_query ?_
  split
  · exact hexit _
  refine wp_admin (fun e he ⟨_, _, h⟩ => ?_) ?_
  · split at he
    · obtain ⟨x, rfl⟩ := require_admin_org_error he
      exact absurd h (by simp)
    · exact absurd he (by simp)
  dsimp only
  split
  · exact hexit _
  split
  · exact hdied
  · exact hexit _
  refine wp_now ?_
  split
  · next reply hreply =>
    obtain ⟨x, rfl⟩ := rotationTimes_error hreply
    exact hexit x
  split
  · exact hexit _
  split
  · exact hexit _
  split
  · exact hexit _
  split
  · exact hexit _
  refine wp_query ?_
  split
  · exact hexit _
  split
  · exact hdied
  refine Prog.wp_bind (wp_fresh (wp_now (wp_now ?_)))
  rw [Prog.pure_eq, Prog.wp_ret]
  refine wp_query (wp_record_audit (wp_commit (fun _ _ ⟨_, _, h⟩ => absurd h (by simp)) ?_))
  intro db' hdb _
  have hold : c ∈ w.db.credentials.filter fun c => c.agent_pk == agent.id && !c.revoked :=
    List.mem_filter.mpr ⟨hc, by simp [hpk, hlive]⟩
  refine (credential_struck hdb ⟨_, List.mem_append_left _ (List.mem_append_left _
    (List.mem_append_right _ (List.mem_map_of_mem hold)))⟩ ⟨c, hc, rfl⟩).released
    (w := { w with next := w.next + 1 }) ⟨hw.keys, hw.single, hw.reserved⟩

/-- The mandates to expire are all in the transaction. -/
theorem expireMandates_reads (rows : List UserPaymentMandate) : ∀ s : Session,
    (expireMandates H s rows).Reads fun s' => (∀ x ∈ s, x ∈ s') ∧
      (∀ m ∈ rows, .setMandateStatus m.mandate_id .expired none ∈ s') ∧
      ∀ k : Authority, s.All k.Spares → s'.All k.Spares := by
  induction rows with
  | nil => exact fun s => ⟨fun _ h => h, fun m hm => absurd hm List.not_mem_nil, fun _ h => h⟩
  | cons m rows ih =>
    intro s
    refine Handler.reads_bind (record_audit_reads H _ _) ?_
    rintro s₁ ⟨e, _, rfl⟩
    refine Prog.quiet_mono ?_ (ih _)
    rintro s' ⟨hold, hrows, hspares⟩
    refine ⟨fun x hx => hold x (by simp [hx]), fun m' hm' => ?_, fun k hk => hspares k ?_⟩
    · rcases List.mem_cons.mp hm' with rfl | hm'
      · exact hold _ (by simp)
      · exact hrows m' hm'
    · refine Session.All.append (Session.All.append hk (Session.all_one ?_)) (Session.all_one ?_) <;>
        cases k <;> trivial

theorem sweep_wp (hw : w.Busy i) (key : String) {m : UserPaymentMandate} (hm : m ∈ w.db.mandates)
    (hactive : m.status = .active) (hexpired : m.expires_at ≤ w.clock) :
    (sweep_mandate_lifecycle H key).Wp (World.exec i)
      (fun w' _ res => (∃ mandates reviews, res = some (.swept mandates reviews)) →
        (Authority.mandate m.mandate_id).Buried w') [] w := by
  have hfirst : (sweep_expired_mandates H).Wp (World.exec i)
      (fun w' _ res => ∀ n, res = some n → (Authority.mandate m.mandate_id).Buried w') [] w := by
    refine wp_now (wp_query ?_)
    refine Prog.wp_bind (Prog.wp_mono ?_ (reads_wp (expireMandates_reads _ [])))
    rintro w' c r ⟨rfl, rfl, hr⟩
    cases r with
    | none => exact fun n h => absurd h (by simp)
    | some s =>
      obtain ⟨_, hrows, hspares⟩ := hr s rfl
      have hrow : m ∈ w'.db.mandates.filter fun m =>
          decide (m.status = .active) && decide (m.expires_at ≤ w'.clock) := by
        refine List.mem_filter.mpr ⟨hm, ?_⟩
        simp [hactive, hexpired]
      dsimp only
      split
      · refine wp_commit (fun _ _ _ h => absurd h (by simp)) fun db' hdb _ _ => ?_
        exact (@mandate_struck _ .expired _ nofun _ _ _ (hrows m hrow)
          (hspares _ Session.all_nil) hdb ⟨m, hm, rfl⟩).released hw
      · next hempty =>
        rw [Bool.not_eq_true, Bool.not_eq_false', List.isEmpty_iff] at hempty
        exact absurd (hempty ▸ hrow) List.not_mem_nil
  refine wp_admin (fun e he ⟨_, _, h⟩ => ?_) ?_
  · unfold Host.require_admin at he
    split at he
    · exact absurd he (by simp)
    · rw [← Except.error.inj he] at h
      exact absurd h (by simp [http])
  refine Prog.wp_bind (Prog.wp_mono ?_ hfirst)
  intro w' c r hr
  cases r with
  | none => exact fun ⟨_, _, h⟩ => absurd h (by simp)
  | some n =>
    refine Prog.wp_bind (Prog.wp_mono ?_ ((expire_stale_reviews_writes key).wp
      (K := fun w' => (Authority.mandate m.mandate_id).Buried w')
      (fun w s hs hk => hk.exec (fun ws hws x hx =>
        Request.Allows.spares (r := .sweep key) (hs ws hws x hx) (.inl trivial)) i) (hr n rfl) c))
    intro w'' c' r' hk
    cases r' with
    | none => exact fun ⟨_, _, h⟩ => absurd h (by simp)
    | some n' => exact fun _ => hk.1

/-- **Each way to revoke leaves its row gone.** -/
theorem revokes_gone (hw : w.Orderly) {r : Request} {answers : List Answer}
    (h : r.Revokes w (Server.serve H r answers w) k) :
    k.Buried (Server.serve H r answers w).store := by
  -- what a handler leaves buried, the rollback that closes its session leaves buried
  have hclose : ∀ {C : List (Call × Option Answer) → Option Reply → Prop},
      (handler H r).Wp (World.exec 0) (fun w' calls res => C calls res → k.Buried w') [] w →
      C (Server.serve H r answers w).calls (Server.serve H r answers w).value →
      k.Buried (Server.serve H r answers w).store := by
    intro C hwp hC
    refine Server.serve_spec (Q := fun w' calls res => C calls res → k.Buried w') answers ?_ hC
    exact Prog.wp_mono (fun w' calls res hQ hC' => (hQ hC').rollback 0) hwp
  have hbusy := hw.busy 0
  cases r with
  | revoke_agent id req key =>
    obtain ⟨hok, rfl⟩ := h
    exact hclose (C := fun _ res => ∃ name, res = some (.agent_revoked name))
      (revoke_agent_wp hbusy id req key) hok
  | revoke_parent id key =>
    obtain ⟨hok, p, hp, rfl⟩ := h
    exact hclose (C := fun _ res => res = some (.parent id .revoked))
      (revoke_parent_wp hbusy id key hp) hok
  | revoke_mandate id reason key =>
    obtain ⟨hok, rfl⟩ := h
    exact hclose (C := fun _ res => ∃ name, res = some (.mandate name .revoked))
      (revoke_mandate_wp hbusy id reason key) hok
  | revoke_authorization ctx id token =>
    obtain ⟨hok, rfl⟩ := h
    exact hclose (C := fun _ res => ∃ name, res = some (.authorization_revoked name))
      (revoke_authorization_wp hw ctx id token) hok
  | rotate_agent_key id req key =>
    obtain ⟨hok, a, ha, hid, c, hc, hpk, hlive, rfl⟩ := h
    exact hclose (C := fun _ res => ∃ name new, res = some (.rotated name new))
      (rotate_agent_key_wp hbusy id req key ha hid hc hpk hlive) hok
  | sweep key =>
    obtain ⟨hok, m, hm, hactive, hexpired, rfl⟩ := h
    exact hclose (C := fun _ res => ∃ mandates reviews, res = some (.swept mandates reviews))
      (sweep_wp hbusy key hm hactive hexpired) hok
  | consume ctx id token =>
    obtain ⟨hcalls, rfl⟩ := h
    exact hclose (C := fun calls _ => calls ≠ []) (consume_wp hw ctx id token) hcalls
  | _ => exact h.elim

end

/-! ## Every run -/

/-- A step of a governed run: a governed request, or time passing. -/
def Server.Step.Governed : Server.Step → Prop
  | .request r _ => r.Governed
  | .tick _ => True

theorem run_buried {H : Host} {w : World} {k : Authority} (h : k.Buried w)
    {steps : List Server.Step} (hgov : ∀ s ∈ steps, s.Governed) :
    k.Buried (Server.run H w steps) := by
  have hstep : ∀ w' s, k.Buried w' → s.Governed → k.Buried (Server.step H w' s) := by
    intro w' s hk hs
    cases s with
    | request r answers => exact gone_stays hk (.inl hs) answers
    | tick d => exact hk
  refine Server.run_invariant hstep steps w h fun pre s post hsteps => hgov s ?_
  rw [hsteps]
  exact List.mem_append_right _ List.mem_cons_self

/-- The rows a consume rests on, by their keys. -/
def Authority.Supports (auth : BoundedAuthorization) (agent : Agent) (claims : SessionClaims) :
    Authority → Prop
  | .agent id => id = auth.agent_id
  | .parent pk => pk = agent.parent_pk
  | .mandate id => auth.mandate_id = some id ∧ id ≠ ""
  | .credential id => claims.credential_id = some id
  | .authorization id => id = auth.authorization_id

/-- What a ready authorization rests on is not gone. -/
theorem Ready.standing {H : Host} {w : World} {ctx : RequestContext} {id token : String}
    {auth : BoundedAuthorization} {agent : Agent} {claims : SessionClaims}
    (h : Ready H w ctx id token auth agent claims) {k : Authority}
    (hk : k.Supports auth agent claims) : ¬ k.Gone w.db := by
  intro hgone
  cases k with
  | agent name =>
    obtain rfl : name = auth.agent_id := hk
    obtain ⟨hmem, hid, _⟩ := h.stands.found
    exact hgone.2 agent hmem hid h.stands.active
  | parent pk =>
    obtain rfl : pk = agent.parent_pk := hk
    obtain ⟨p, hp, hid, hactive⟩ := h.stands.parent
    exact hgone.2 p hp hid hactive
  | mandate name =>
    obtain ⟨hname, hne⟩ := hk
    obtain ⟨m, hm, hid, _, _, hpermits⟩ := h.stands.mandate name hname hne
    exact hgone.2 m hm hid hpermits.active
  | credential name =>
    obtain ⟨c, hc, hid, hlive, _⟩ := h.credential
    have hid : c.credential_id = name := (Option.some.inj (hid.symm.trans hk))
    exact absurd (hgone.2 c hc hid) (by simp [hlive])
  | authorization name =>
    obtain rfl : name = auth.authorization_id := hk
    have hspent := hgone.2 auth h.stored.1 rfl
    obtain ⟨hzero, hone⟩ := h.unused
    omega

/-- **Revocation reaches execution.** In every run from an orderly world, a consume that
goes on to a provider finds everything its authorization rests on standing at that
instant, and nothing it rests on was revoked or used before. -/
theorem revocation_reaches_execution {H : Host} {w : World} (hw : w.Orderly)
    {steps : List Server.Step} (hgov : ∀ s ∈ steps, s.Governed) {ctx : RequestContext}
    {id token : String} {answers : List Answer}
    (hcalls : (Server.serve H (.consume ctx id token) answers
      (Server.run H w steps)).calls ≠ []) :
    ∃ auth agent claims, Ready H (Server.run H w steps) ctx id token auth agent claims ∧
      ∀ pre r as post k, steps = pre ++ .request r as :: post →
        r.Revokes (Server.run H w pre) (Server.serve H r as (Server.run H w pre)) k →
        ¬ k.Supports auth agent claims := by
  have horderly := Server.run_orderly (H := H) hw steps
  obtain ⟨auth, agent, claims, hready⟩ := consume_calls horderly hcalls
  refine ⟨auth, agent, claims, hready, fun pre r as post k hsteps hrevokes hsupports => ?_⟩
  have hgone := revokes_gone (Server.run_orderly hw pre) hrevokes
  have hlater := @run_buried H _ _ hgone post fun s hs => hgov s (by
    rw [hsteps]
    exact List.mem_append_right _ (List.mem_cons_of_mem _ hs))
  have hend : Server.run H w steps =
      Server.run H (Server.serve H r as (Server.run H w pre)).store post := by
    rw [hsteps, Server.run_append]
    rfl
  rw [← hend] at hlater
  exact hready.standing hsupports hlater.1

namespace Sample

/-- Two authorizations of the agent; the first is revoked before the second is used. -/
def twoAuthorizations : World :=
  world (db [{ authorization 100 with authorization_id := "first" }, authorization 100]
    [txn .AUTHORIZED none none none])

def firstRevoked : List Server.Step :=
  [.request (.revoke_authorization ctx "first" "agent") [], .tick 1]

end Sample

theorem revocation_reaches_execution_other :
    ∃ auth agent claims, Ready (Sample.host false [])
      (Server.run (Sample.host false []) Sample.twoAuthorizations Sample.firstRevoked)
      Sample.ctx "auth" "agent" auth agent claims ∧
      ∀ pre r as post k, Sample.firstRevoked = pre ++ .request r as :: post →
        r.Revokes (Server.run (Sample.host false []) Sample.twoAuthorizations pre)
          (Server.serve (Sample.host false []) r as
            (Server.run (Sample.host false []) Sample.twoAuthorizations pre)) k →
        ¬ k.Supports auth agent claims := by
  refine @revocation_reaches_execution _ _ ?_ _ ?_ _ _ _ [] ?_
  · exact ⟨⟨by decide, by decide, by decide, by decide, by decide⟩, by decide, rfl⟩
  · intro s hs
    simp only [Sample.firstRevoked, List.mem_cons, List.not_mem_nil, or_false] at hs
    rcases hs with rfl | rfl <;> trivial
  · exact List.cons_ne_nil _ _

end Paari
