import Paari.Onboarding

/-!
# Revocation for good

Nothing stores that a parent was revoked but its status. `Barred` is what should hold from
then on: the parent is not active, its agents are the ones it had, with the keys and the
credentials they had, and no payment of theirs is authorized or executed. Every request
keeps it (`serve_barred`) but the approval of a parent, which looks at the status of the
moment: a rejection takes the mark of the revocation away, and the parent can be approved
like any other. `Operation.Reinstates` is that approval.
-/

namespace Paari

open Atomic

/-- The approval goes through: the key reaches the parent, whose status is not REVOKED. -/
structure Approves (H : Host) (w : World) (id key : String) (q : ParentAuthority) : Prop where
  found : w.db.parents.find? (fun q => q.parent_id == id) = some q
  status : q.status ≠ .revoked
  admin : H.require_admin_org key q.org_id = .ok ()

/-- The parent is approved although it was revoked: its status no longer tells. -/
def Operation.Reinstates (H : Host) (pk : Nat) (w : World) : Operation → Prop
  | .serve (.approve_parent id key) _ => ∃ q, Approves H w id key q ∧ q.id = pk
  | _ => False

/-- The agents of the parent are those of `db₀`, but for their status. -/
def SameAgents (pk : Nat) (db₀ db : DB) : Prop :=
  ∀ a ∈ db.agents, a.parent_pk = pk → ∃ a₀ ∈ db₀.agents, a = { a₀ with status := a.status }

/-- Under the parent nothing was added since `db₀`. -/
structure Shut (pk : Nat) (db₀ db : DB) : Prop where
  agents : SameAgents pk db₀ db
  credentials : ∀ a ∈ db.agents, a.parent_pk = pk → ∀ c ∈ db.credentials, c.agent_pk = a.id →
    ∃ c₀ ∈ db₀.credentials, c₀.credential_id = c.credential_id
  authorizations : ∀ a ∈ db.agents, a.parent_pk = pk → ∀ u ∈ db.authorizations,
    u.agent_id = a.agent_id → ∃ u₀ ∈ db₀.authorizations, u₀.authorization_id = u.authorization_id

/-- The parent grants nothing: as it was in `w₀`, and no consume of its agents' payments
gets to a provider. -/
structure Barred (H : Host) (pk : Nat) (w₀ w : World) : Prop where
  inactive : ∀ p ∈ w.db.parents, p.id = pk → p.status ≠ .active
  shut : Shut pk w₀.db w.db
  executed : ∀ a ∈ w.db.agents, a.parent_pk = pk → ∀ u ∈ w.db.authorizations,
    u.agent_id = a.agent_id → ∀ ctx token answers,
      (Server.serve H (.consume ctx u.authorization_id token) answers w).calls = []

section
variable {H : Host} {pk : Nat} {db₀ db db' : DB} {w w₀ : World} {q : Sight}

theorem Shut.refl (db : DB) : Shut pk db db where
  agents a ha _ := ⟨a, ha, rfl⟩
  credentials _ _ _ c hc _ := ⟨c, hc, rfl⟩
  authorizations _ _ _ u hu _ := ⟨u, hu, rfl⟩

theorem Shut.congr (h : Shut pk db₀ db) (ha : db'.agents = db.agents)
    (hc : db'.credentials = db.credentials) (hu : db'.authorizations = db.authorizations) :
    Shut pk db₀ db' := by
  refine ⟨?_, ?_, ?_⟩
  · unfold SameAgents
    rw [ha]
    exact h.agents
  · rw [ha, hc]; exact h.credentials
  · rw [ha, hu]; exact h.authorizations

theorem Shut.use (h : Shut pk db₀ db) {as : List BoundedAuthorization}
    (hterms : as.map BoundedAuthorization.terms = db.authorizations.map BoundedAuthorization.terms) :
    Shut pk db₀ { db with authorizations := as } where
  agents := h.agents
  credentials := h.credentials
  authorizations a ha hpk u hu hown := by
    have hmem := hterms ▸ List.mem_map_of_mem (f := BoundedAuthorization.terms) hu
    obtain ⟨v, hv, heq⟩ := List.mem_map.mp hmem
    have hname : v.terms.agent_id = u.terms.agent_id := by rw [heq]
    have hsame : v.terms.authorization_id = u.terms.authorization_id := by rw [heq]
    obtain ⟨u₀, hu₀, hid⟩ := h.authorizations a ha hpk v hv (Eq.trans hname hown)
    exact ⟨u₀, hu₀, hid.trans hsame⟩

theorem Shut.rollback (h : Shut pk db₀ w.db) (i : Nat) : Shut pk db₀ (w.rollback i).db := by
  rw [rollback_db]
  exact h.use (onward_rollback i w).terms

/-- A consume that gets to a provider finds the parent active. -/
theorem Barred.of_shut (hw : w.Orderly) (h : Shut pk w₀.db w.db)
    (hinactive : ∀ p ∈ w.db.parents, p.id = pk → p.status ≠ .active) : Barred H pk w₀ w where
  inactive := hinactive
  shut := h
  executed a ha hpk u hu hname ctx token answers := by
    by_contra hcalls
    obtain ⟨auth, agent, claims, hready⟩ := consume_calls hw hcalls
    obtain ⟨hstored, hid⟩ := hready.stored
    obtain ⟨hagent, hagentname, -⟩ := hready.stands.found
    obtain rfl : auth = u := List.inj_on_of_nodup_map hw.keys.authorizations hstored hu hid
    obtain rfl : agent = a :=
      List.inj_on_of_nodup_map hw.keys.agents hagent ha (hagentname.trans hname)
    obtain ⟨p, hp, hpid, hactive⟩ := hready.stands.parent
    exact hinactive p hp (hpid.trans hpk) hactive

/-! ## Every request but an approval -/

/-- What a handler knows under the parent: it never saw it active, and enrolled no agent there. -/
structure Sight.Shuts (pk : Nat) (db₀ : DB) (q : Sight) (db : DB) : Prop where
  gone : (Authority.parent pk).Gone db
  shut : Shut pk db₀ db
  seen : ∀ d ∈ q.seen, ∀ p ∈ d.parents, p.id = pk → p.status ≠ .active
  done : ∀ a, .insertAgent a ∈ q.done → a.parent_pk ≠ pk

/-- An agent that acts is another parent's. -/
theorem Sight.Shuts.acting (h : q.Shuts pk db₀ db) {a : Paari.Agent}
    (ha : q.Acting a) : a.parent_pk ≠ pk := by
  intro hpk
  obtain ⟨p, ⟨hactive, d, hd, hp⟩, hid⟩ := ha.parent
  exact h.seen d hd p hp (hid.trans hpk) hactive

/-- What a commit is grounded in, as far as the agents of the parent go. -/
structure Foreign (pk : Nat) (db : DB) (x : Write) : Prop where
  insert : ∀ a, x = .insertAgent a → a.parent_pk ≠ pk
  rotate : ∀ id r, x = .rotateAgent id r → ∃ b ∈ db.agents, b.id = id ∧ b.parent_pk ≠ pk

theorem Sight.Shuts.foreign {l : Bool} {ws : List Write} {x : Write} (h : q.Shuts pk db₀ db)
    (hsure : q.Sure db) (hx : q.Grounds l ws x) : Foreign pk db x := by
  constructor
  · rintro a rfl
    obtain ⟨p, ⟨hactive, d, hd, hp⟩, hpk, -⟩ := hx
    exact fun heq => h.seen d hd p hp (hpk.symm.trans heq) hactive
  · rintro id r rfl
    obtain ⟨a, ha, rfl⟩ := hx
    obtain ⟨b, hb, hid, -, hparent, -⟩ := mem_agent_rows.mp (hsure.acting ha)
    exact ⟨b, hb, hid, by rw [hparent]; exact h.acting ha⟩

/-- The agents of the parent stay as they are, up to their status. -/
theorem applyAll_shut_agents (hkeys : db.Keys) {ws : List Write}
    (hws : ∀ x ∈ ws, Foreign pk db x) (hdb : db.applyAll ws = .ok db')
    (h : SameAgents pk db₀ db) : SameAgents pk db₀ db' := by
  have hstep : ∀ (d d' : DB) x, Foreign pk db x → d.apply x = some d' →
      d.Keys ∧ (∀ r ∈ db.rows, r ∈ d.rows) ∧ SameAgents pk db₀ d →
      d'.Keys ∧ (∀ r ∈ db.rows, r ∈ d'.rows) ∧ SameAgents pk db₀ d' := by
    rintro d d' x hx hap ⟨hk, hrows, hall⟩
    refine ⟨apply_keys hap hk, fun r hr => (apply_rows hap).mpr (.inl (hrows r hr)), ?_⟩
    unfold SameAgents
    rcases apply_agents hap with ⟨b, rfl, heq, -⟩ | ⟨id, r, rfl, heq⟩ | ⟨id, rfl, heq⟩ | heq <;>
      rw [heq]
    · intro a ha hpk
      rcases List.mem_append.mp ha with ha | ha
      · exact hall a ha hpk
      · obtain rfl := List.mem_singleton.mp ha
        exact absurd hpk (hx.insert _ rfl)
    · intro a' ha' hpk
      obtain ⟨a, ha, rfl⟩ := mem_updateWhere.mp ha'
      by_cases hid : (a.id == id) = true
      · -- the row that is re-keyed is another parent's
        rw [if_pos hid] at hpk
        obtain ⟨b, hb, hbid, hother⟩ := hx.rotate id r rfl
        have hsame := (hk.agent_row (agent_row_mem ha) (hrows _ (agent_row_mem hb))
          (.inl ((beq_iff_eq.mp hid).trans hbid.symm))).2.2.1
        exact absurd (hsame.symm.trans hpk) hother
      · rw [if_neg hid] at hpk ⊢
        exact hall a ha hpk
    · intro a' ha' hpk
      obtain ⟨a, ha, rfl⟩ := mem_updateWhere.mp ha'
      split at hpk
      · obtain ⟨a₀, ha₀, heq₀⟩ := hall a ha hpk
        refine ⟨a₀, ha₀, ?_⟩
        rw [heq₀]
        split <;> rfl
      · obtain ⟨a₀, ha₀, heq₀⟩ := hall a ha hpk
        refine ⟨a₀, ha₀, ?_⟩
        split
        · rw [heq₀]
        · exact heq₀
    · exact hall
  exact (applyAll_keeps_all hstep hws hdb ⟨hkeys, fun _ => id, h⟩).2.2

/-- An agent of the parent was there before the commit. -/
theorem agent_before {ws : List Write} (hws : ∀ x ∈ ws, Foreign pk db x)
    (hdb : db.applyAll ws = .ok db') {a : Paari.Agent} (ha : a ∈ db'.agents)
    (hpk : a.parent_pk = pk) : ∃ b ∈ db.agents, b.id = a.id ∧ b.agent_id = a.agent_id ∧
      b.parent_pk = pk := by
  rcases (applyAll_rows hdb).mp (agent_row_mem ha) with hold | ⟨x, hx, hrow⟩
  · obtain ⟨b, hb, hid, hname, hparent, -⟩ := mem_agent_rows.mp hold
    exact ⟨b, hb, hid, hname, hparent.trans hpk⟩
  · cases x with
    | insertAgent b =>
      have heq := Option.some.inj hrow
      unfold Agent.row at heq
      obtain ⟨-, -, hparent, -⟩ := Row.agent.inj heq
      exact absurd (hparent.trans hpk) ((hws _ hx).insert b rfl)
    | _ => exact absurd hrow (by simp [Write.row, Agent.row, ParentAuthority.row,
        DelegationRecord.row, RevocationRecord.row, Credential.row, UserPaymentMandate.row,
        PaymentIntent.row, MFAChallenge.row, BoundedAuthorization.row, ProviderTransaction.row])

/-- No write but an insertion of the kind adds a row of the kind. -/
theorem inserted_credential {x : Write} {c : Credential} (h : x.row = some c.row) :
    ∃ d, x = .insertCredential d ∧ d.credential_id = c.credential_id ∧ d.agent_pk = c.agent_pk := by
  cases x with
  | insertCredential d =>
    obtain ⟨hid, hpk, -⟩ := Row.credential.inj (Option.some.inj h)
    exact ⟨d, rfl, hid, hpk⟩
  | _ => exact absurd h (by simp [Write.row, Agent.row, ParentAuthority.row,
      DelegationRecord.row, RevocationRecord.row, Credential.row, UserPaymentMandate.row,
      PaymentIntent.row, MFAChallenge.row, BoundedAuthorization.row, ProviderTransaction.row])

theorem inserted_authorization {x : Write} {u : BoundedAuthorization} (h : x.row = some u.row) :
    ∃ v, x = .insertAuthorization v ∧ v.authorization_id = u.authorization_id ∧
      v.agent_id = u.agent_id := by
  cases x with
  | insertAuthorization v =>
    obtain ⟨hid, hname, -⟩ := Row.authorization.inj (Option.some.inj h)
    exact ⟨v, rfl, hid, hname⟩
  | _ => exact absurd h (by simp [Write.row, Agent.row, ParentAuthority.row,
      DelegationRecord.row, RevocationRecord.row, Credential.row, UserPaymentMandate.row,
      PaymentIntent.row, MFAChallenge.row, BoundedAuthorization.row, ProviderTransaction.row])

theorem credential_row_mem {c : Credential} (h : c ∈ db.credentials) : c.row ∈ db.rows :=
  mem_credential_rows.mpr ⟨c, h, rfl, rfl, rfl⟩

/-- No credential and no authorization is issued to an agent of the parent. -/
theorem Sight.Shuts.commit_shut {l : Bool} {ws : List Write} (h : q.Shuts pk db₀ db)
    (hsure : q.Sure db) (hkeys : db.Keys) (hkeys' : db'.Keys)
    (hws : ∀ x ∈ ws, q.Grounds l ws x) (hdb : db.applyAll ws = .ok db') : Shut pk db₀ db' := by
  have hforeign : ∀ x ∈ ws, Foreign pk db x := fun x hx => h.foreign hsure (hws x hx)
  have hsure' := hsure.commit hdb
  -- an agent of another parent is not the one the row is about
  have hother : ∀ {a b : Paari.Agent}, a ∈ db'.agents → a.parent_pk = pk → b.parent_pk ≠ pk →
      b.row ∈ db'.rows → b.id ≠ a.id ∧ b.agent_id ≠ a.agent_id := by
    intro a b ha hpk hb hrow
    constructor <;> intro hsame
    · exact hb ((hkeys'.agent_row hrow (agent_row_mem ha) (.inl hsame)).2.2.1.trans hpk)
    · exact hb ((hkeys'.agent_row hrow (agent_row_mem ha) (.inr hsame)).2.2.1.trans hpk)
  have hacting : ∀ {b : Paari.Agent}, q.Acting b → b.row ∈ db'.rows :=
    fun hb => (applyAll_rows hdb).mpr (.inl (hsure.acting hb))
  refine ⟨applyAll_shut_agents hkeys hforeign hdb h.shut.agents, ?_, ?_⟩
  · intro a ha hpk c hc hown
    rcases (applyAll_rows hdb).mp (credential_row_mem hc) with hold | ⟨x, hx, hrow⟩
    · obtain ⟨d, hd, hid, hdpk, -⟩ := mem_credential_rows.mp hold
      obtain ⟨b, hb, hbid, -, hbpk⟩ := agent_before hforeign hdb ha hpk
      obtain ⟨c₀, hc₀, hid₀⟩ :=
        h.shut.credentials b hb hbpk d hd (hdpk.trans (hown.trans hbid.symm))
      exact ⟨c₀, hc₀, hid₀.trans hid⟩
    · obtain ⟨d, rfl, -, hdpk⟩ := inserted_credential hrow
      exfalso
      rcases hws _ hx with ⟨b, hnew, hbid, -⟩ | ⟨b, hb, hbid, -⟩
      · have hb : b.parent_pk ≠ pk := by
          rcases hnew with hnew | hnew
          · exact h.done b hnew
          · exact (hforeign _ hnew).insert b rfl
        have hrow : b.row ∈ db'.rows := hsure'.done _ (by
          rcases hnew with hnew | hnew
          · exact List.mem_append_right _ hnew
          · exact List.mem_append_left _ hnew) _ rfl
        exact (hother ha hpk hb hrow).1 (hbid.symm.trans (hdpk.trans hown))
      · exact (hother ha hpk (h.acting hb) (hacting hb)).1 (hbid.symm.trans (hdpk.trans hown))
  · intro a ha hpk u hu hown
    rcases (applyAll_rows hdb).mp (authorization_row_mem hu) with hold | ⟨x, hx, hrow⟩
    · obtain ⟨v, hv, hid, hname, -⟩ := mem_authorization_rows.mp hold
      obtain ⟨b, hb, -, hbname, hbpk⟩ := agent_before hforeign hdb ha hpk
      obtain ⟨u₀, hu₀, hid₀⟩ :=
        h.shut.authorizations b hb hbpk v hv (hname.trans (hown.trans hbname.symm))
      exact ⟨u₀, hu₀, hid₀.trans hid⟩
    · obtain ⟨v, rfl, -, hname⟩ := inserted_authorization hrow
      obtain ⟨b, i, hb, hi, -, hvname, -⟩ := hws _ hx
      have hsame := hsure.drawn hkeys hi
      exact absurd (hsame.symm.trans (hvname.symm.trans (hname.trans hown)))
        (hother ha hpk (h.acting hb) (hacting hb)).2

/-- **A grounded commit keeps the parent shut.** -/
theorem shuts_keeps {l : Bool} {P : Write → Prop} (hP : ∀ x, P x → (Authority.parent pk).Spares x) :
    Sight.Keeps l P (Sight.Shuts pk db₀) where
  read q db h := by
    refine ⟨h.gone, h.shut, fun d hd => ?_, h.done⟩
    rcases List.mem_cons.mp hd with rfl | hd
    · exact h.gone.2
    · exact h.seen d hd
  commit q db ws db' h hsure hkeys hkeys' hws hdb := by
    refine ⟨?_, h.commit_shut hsure hkeys hkeys' (fun x hx => (hws x hx).2) hdb, h.seen, ?_⟩
    · exact applyAll_keeps_all (fun _ _ _ hx hap hk => apply_gone hx hap hk)
        (fun x hx => hP x (hws x hx).1) hdb h.gone
    · intro a ha
      rcases List.mem_append.mp ha with ha | ha
      · exact (h.foreign hsure (hws _ ha).2).insert a rfl
      · exact h.done a ha
  use q db as hterms h := ⟨h.gone, h.shut.use hterms, h.seen, h.done⟩

/-! ## Approvals -/

/-- An approval sets the status of the parent, or does nothing. -/
theorem approve_parent_wp {i : Nat} (id key : String) :
    (approve_parent H id key).Wp (World.exec i)
      (fun w' _ _ => (∃ q db', Approves H w id key q ∧
        w.db.apply (.setParentStatus q.id .active (some "admin_approved")) = some db' ∧
          w' = { w with db := db' }.release i) ∨ w' = w ∧ ∀ q, ¬ Approves H w id key q) [] w := by
  refine wp_query ?_
  split
  · next hnone =>
    exact .inr ⟨rfl, fun q h => absurd (hnone.symm.trans h.found) (by simp)⟩
  next q hq =>
  cases hadmin : H.require_admin_org key q.org_id with
  | error e =>
    refine .inr ⟨rfl, fun r h => ?_⟩
    obtain rfl := Option.some.inj (hq.symm.trans h.found)
    exact absurd (hadmin.symm.trans h.admin) (by simp)
  | ok u =>
    show (if q.status = .revoked then _ else _ : Handler Reply).Wp _ _ _ _
    split
    · next hrevoked =>
      refine .inr ⟨rfl, fun r h => ?_⟩
      obtain rfl := Option.some.inj (hq.symm.trans h.found)
      exact h.status hrevoked
    next hstatus =>
    refine wp_commit (fun x hx => absurd hx (by simp [DB.applyAll, DB.apply])) fun db' hdb => ?_
    obtain ⟨mid, hmid, hrest⟩ := applyAll_cons hdb
    obtain rfl := Except.ok.inj hrest
    exact .inl ⟨q, _, ⟨hq, hstatus, hadmin⟩, hmid, rfl⟩

/-- An approval of another parent, or one that is refused. -/
theorem approve_gone (hw : w.Orderly) (h : (Authority.parent pk).Buried w) {id key : String}
    (hother : ∀ q, Approves H w id key q → q.id ≠ pk) (answers : List Answer) :
    (Authority.parent pk).Buried (Server.serve H (.approve_parent id key) answers w).store := by
  refine Server.serve_spec (Q := fun w' _ _ => (Authority.parent pk).Buried w') answers ?_
  refine Prog.wp_mono ?_ (approve_parent_wp id key)
  rintro w' _ _ (⟨q, db', happroves, hdb, rfl⟩ | ⟨rfl, -⟩)
  · refine Authority.Buried.rollback (Authority.Gone.released ?_ (hw.busy 0)) 0
    have hne := hother q happroves
    show Dead _ _ _ db'.parents
    rw [← Option.some.inj hdb]
    refine Dead.update_keyed h.1 (fun _ => rfl) fun r hr hp _ => ?_
    exact absurd ((beq_iff_eq.mp hp).symm.trans hr) hne
  · exact h.rollback 0

theorem approve_shut (h : Shut pk db₀ w.db) {id key : String} (answers : List Answer) :
    Shut pk db₀ (Server.serve H (.approve_parent id key) answers w).store.db := by
  refine Server.serve_spec (Q := fun w' _ _ => Shut pk db₀ w'.db) answers ?_
  refine Prog.wp_mono ?_ (approve_parent_wp id key)
  rintro w' _ _ (⟨q, db', -, hdb, rfl⟩ | ⟨rfl, -⟩)
  · have hframe := Frame.of_apply hdb
    refine Shut.rollback (w := { w with db := db' }.release 0) ?_ 0
    exact h.congr (hframe.agents nofun) (hframe.credentials nofun) (hframe.authorizations nofun)
  · exact h.rollback 0

/-- An approval that goes through makes the parent active, whatever it was before. -/
theorem approve_active {id key : String} {q : ParentAuthority} (h : Approves H w id key q)
    (answers : List Answer) :
    ∃ p ∈ (Server.serve H (.approve_parent id key) answers w).store.db.parents,
      p.id = q.id ∧ p.status = .active := by
  refine Server.serve_spec (Q := fun w' _ _ => ∃ p ∈ w'.db.parents, p.id = q.id ∧
    p.status = .active) answers ?_
  refine Prog.wp_mono ?_ (approve_parent_wp id key)
  rintro w' _ _ (⟨r, db', hr, hdb, rfl⟩ | ⟨rfl, hnone⟩)
  · obtain rfl := Option.some.inj (hr.found.symm.trans h.found)
    rw [rollback_db]
    show ∃ p ∈ db'.parents, p.id = _ ∧ p.status = _
    rw [← Option.some.inj hdb]
    refine ⟨_, mem_updateWhere.mpr ⟨r, List.mem_of_find?_eq_some hr.found, rfl⟩, ?_⟩
    rw [if_pos (beq_self_eq_true _)]
    exact ⟨rfl, rfl⟩
  · exact absurd h (hnone q)

/-! ## Every request -/

/-- What holds of the service from the revocation on. -/
structure Locked (pk : Nat) (db₀ : DB) (w : World) : Prop where
  orderly : w.Orderly
  buried : (Authority.parent pk).Buried w
  shut : Shut pk db₀ w.db

theorem Locked.barred (h : Locked pk w₀.db w) : Barred H pk w₀ w :=
  .of_shut h.orderly h.shut h.buried.1.2

/-- **One request keeps the parent shut**, unless it is the approval that reinstates it. -/
theorem serve_locked (h : Locked pk db₀ w) {r : Request} {answers : List Answer}
    (hr : ¬ (Operation.serve r answers).Reinstates H pk w) :
    Locked pk db₀ (Server.serve H r answers w).store := by
  by_cases hgov : r.Governed
  · have hstart : Sight.Shuts pk db₀ .empty w.db :=
      ⟨h.buried.1, h.shut, fun d hd => absurd hd List.not_mem_nil,
        fun a ha => absurd ha List.not_mem_nil⟩
    have hspares : ∀ x, r.Allows x → (Authority.parent pk).Spares x :=
      fun x hx => hx.spares (.inl hgov)
    obtain ⟨q, htied⟩ := serve_tied (H := H) (shuts_keeps hspares) hstart h.orderly.keys answers 0
    exact ⟨Server.serve_orderly h.orderly r answers, gone_stays h.buried (.inl hgov) answers,
      htied.keep.shut⟩
  · cases r with
    | approve_parent id key =>
      have hother : ∀ q, Approves H w id key q → q.id ≠ pk := fun q hq hid => hr ⟨q, hq, hid⟩
      refine ⟨Server.serve_orderly h.orderly _ answers,
        approve_gone h.orderly h.buried hother answers, ?_⟩
      exact approve_shut h.shut answers
    | _ => exact absurd trivial hgov

end

/-! ## Every run -/

namespace Platform

variable {H : Host} {decode_credential_jwt : Instant → String → Option (String × String)}
  {pk : Nat} {db₀ : DB} {p : Platform}

theorem Steady.buried {p' : Platform} (hs : Steady p p') {k : Authority} (h : k.Buried p.world) :
    k.Buried p'.world := by
  refine ⟨?_, fun id hid => by rw [hs.reserved]; exact h.2 id hid⟩
  have hk := h.1
  cases k with
  | agent id =>
    show Dead _ _ _ p'.world.db.agents
    rw [hs.aside.agents]
    exact hk
  | parent pk =>
    obtain ⟨sel, f, hf, heq⟩ := hs.parents
    show Dead _ _ _ p'.world.db.parents
    rw [heq]
    refine Dead.update hk (fun r => (hf r).1) fun r hr => ?_
    rw [(hf r).2]
    exact hr
  | mandate id =>
    show Dead _ _ _ p'.world.db.mandates
    rw [hs.aside.mandates]
    exact hk
  | credential id =>
    show Dead _ _ _ p'.world.db.credentials
    rw [hs.aside.credentials]
    exact hk
  | authorization id =>
    show Dead _ _ _ p'.world.db.authorizations
    rw [hs.aside.authorizations]
    exact hk

theorem Steady.locked {p' : Platform} (hs : Steady p p') (h : Locked pk db₀ p.world) :
    Locked pk db₀ p'.world where
  orderly := hs.orderly h.orderly
  buried := hs.buried h.buried
  shut := h.shut.congr hs.aside.agents hs.aside.credentials hs.aside.authorizations

theorem step_locked (h : Locked pk db₀ p.world) {op : Operation}
    (hop : ¬ op.Reinstates H pk p.world) :
    Locked pk db₀ (step H decode_credential_jwt p op).world := by
  cases op with
  | serve r answers => exact serve_locked h hop
  | _ =>
    exact (step_steady p (by simp)).locked h

/-- A mandate or an agent that is gone stays gone: here an approval makes no difference. -/
theorem step_buried {k : Authority} (hk : ∀ pk, k ≠ .parent pk) (h : k.Buried p.world)
    (op : Operation) : k.Buried (step H decode_credential_jwt p op).world := by
  cases op with
  | serve r answers => exact gone_stays h (.inr hk) answers
  | _ => exact (step_steady p (by simp)).buried h

/-- What is gone stays gone in a run. -/
theorem run_gone {k : Authority} (hk : ∀ pk, k ≠ .parent pk) (ops : List Operation)
    (h : k.Buried p.world) : k.Buried (run H decode_credential_jwt p ops).world :=
  @run_invariant H decode_credential_jwt (fun p => k.Buried p.world) (fun _ _ => True)
    (fun _ op h _ => step_buried hk h op) ops p h fun _ _ _ _ => trivial

theorem run_locked (h : Locked pk db₀ p.world) {ops : List Operation}
    (hops : ∀ pre op post, ops = pre ++ op :: post →
      ¬ op.Reinstates H pk (run H decode_credential_jwt p pre).world) :
    Locked pk db₀ (run H decode_credential_jwt p ops).world :=
  @run_invariant H decode_credential_jwt (fun p => Locked pk db₀ p.world)
    (fun p op => ¬ op.Reinstates H pk p.world) (fun _ _ h hop => step_locked h hop) ops p h hops

/-- From a committed `revoke_parent` on. -/
theorem revoked_locked (hp : p.world.Orderly) {id key : String} {answers : List Answer}
    {q : ParentAuthority}
    (hq : p.world.db.parents.find? (fun q => q.parent_id == id) = some q)
    (hrevoked : (Server.serve H (.revoke_parent id key) answers p.world).value =
      some (.parent id .revoked)) :
    Locked q.id (step H decode_credential_jwt p (.serve (.revoke_parent id key) answers)).world.db
      (step H decode_credential_jwt p (.serve (.revoke_parent id key) answers)).world := by
  have hburied : (Authority.parent q.id).Buried
      (Server.serve H (.revoke_parent id key) answers p.world).store :=
    revokes_gone hp ⟨hrevoked, q, hq, rfl⟩
  exact ⟨Server.serve_orderly hp _ answers, hburied, .refl _⟩

/-- The approval is the only way back. -/
theorem barred_iff (h : Locked pk p.world.db p.world) (ops : List Operation) :
    (∀ pre post, ops = pre ++ post →
        Barred H pk p.world (run H decode_credential_jwt p pre).world) ↔
      ∀ pre op post, ops = pre ++ op :: post →
        ¬ op.Reinstates H pk (run H decode_credential_jwt p pre).world := by
  refine ⟨fun hbarred pre op post hops hop => ?_, fun hops pre post hpre => ?_⟩
  · have hsplit : ops = (pre ++ [op]) ++ post := by
      rw [hops, List.append_assoc, List.singleton_append]
    have hafter := (hbarred _ _ hsplit).inactive
    rw [run_append] at hafter
    cases op with
    | serve r answers =>
      cases r with
      | approve_parent id key =>
        obtain ⟨r, happroves, hid⟩ := hop
        obtain ⟨s, hs, hsid, hactive⟩ := approve_active happroves answers
        exact hafter s hs (hsid.trans hid) hactive
      | _ => exact hop
    | _ => exact hop
  · refine (run_locked h fun pre' op post' h' => hops pre' op (post' ++ post) ?_).barred
    rw [hpre, h', List.append_assoc, List.cons_append]

/-- **Revocation is permanent**, in every run in which no approval reinstates the parent. A
mandate or an agent that stopped being active never is again in any run. -/
theorem revocation_permanent (hp : p.world.Orderly) :
    (∀ id key answers q, p.world.db.parents.find? (fun q => q.parent_id == id) = some q →
      (Server.serve H (.revoke_parent id key) answers p.world).value =
        some (.parent id .revoked) →
      ∀ p', p' = step H decode_credential_jwt p (.serve (.revoke_parent id key) answers) →
      ∀ ops, (∀ pre post, ops = pre ++ post →
          Barred H q.id p'.world (run H decode_credential_jwt p' pre).world) ↔
        ∀ pre op post, ops = pre ++ op :: post →
          ¬ op.Reinstates H q.id (run H decode_credential_jwt p' pre).world) ∧
    ∀ k : Authority, ((∃ name, k = .agent name) ∨ ∃ name, k = .mandate name) →
      ∀ pre post, k.Gone (run H decode_credential_jwt p pre).world.db →
        k.Gone (run H decode_credential_jwt p (pre ++ post)).world.db := by
  refine ⟨?_, fun k hk pre post hgone => ?_⟩
  · rintro id key answers q hq hrevoked p' rfl ops
    exact barred_iff (revoked_locked hp hq hrevoked) ops
  · have hparent : ∀ pk, k ≠ .parent pk := by
      rcases hk with ⟨name, rfl⟩ | ⟨name, rfl⟩ <;> exact fun _ => nofun
    have hburied : k.Buried (run H decode_credential_jwt p pre).world := by
      refine ⟨hgone, fun name hname => ?_⟩
      rcases hk with ⟨_, rfl⟩ | ⟨_, rfl⟩ <;> exact absurd hname nofun
    rw [run_append]
    exact (run_gone hparent post hburied).1

end Platform

namespace Sample

def platform : Platform := ⟨world (db [] []), [], []⟩

/-- An administrator revokes the parent, then rejects it, then approves it. -/
def reinstatement : List Operation :=
  [.serve (.revoke_parent "parent" "admin") [], .serve (.reject_parent "parent" "admin") [],
    .serve (.approve_parent "parent" "admin") []]

theorem platform_orderly : platform.world.Orderly :=
  ⟨⟨by decide, by decide, by decide, by decide, by decide⟩, by decide, rfl⟩

end Sample

theorem revocation_permanent_rejected :
    Barred (Sample.host false []) 1
      (Platform.step (Sample.host false []) (fun _ _ => none) Sample.platform
        (.serve (.revoke_parent "parent" "admin") [])).world
      (Platform.run (Sample.host false []) (fun _ _ => none)
        (Platform.step (Sample.host false []) (fun _ _ => none) Sample.platform
          (.serve (.revoke_parent "parent" "admin") []))
        [.serve (.reject_parent "parent" "admin") [], .tick 1]).world := by
  have hiff := (@Platform.revocation_permanent (Sample.host false []) (fun _ _ => none)
    Sample.platform Sample.platform_orderly).1 "parent" "admin" [] Sample.parent rfl rfl _ rfl
    [.serve (.reject_parent "parent" "admin") [], .tick 1]
  refine hiff.mpr (fun pre op post hops hop => ?_) _ [] (List.append_nil _).symm
  have hmem : op ∈ [Operation.serve (.reject_parent "parent" "admin") [], .tick 1] := by
    rw [hops]
    exact List.mem_append_right _ List.mem_cons_self
  simp only [List.mem_cons, List.not_mem_nil, or_false] at hmem
  rcases hmem with rfl | rfl <;> exact hop

theorem revoked_parent_reinstated :
    (Server.serve (Sample.host false []) (.revoke_parent "parent" "admin") []
      Sample.platform.world).value = some (.parent "parent" .revoked) ∧
    (Platform.run (Sample.host false []) (fun _ _ => none) Sample.platform
      Sample.reinstatement).world.db.parents.map ParentAuthority.status = [.active] :=
  ⟨rfl, rfl⟩

end Paari
