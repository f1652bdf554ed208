import Paari.Onboarding

/-!
# Whose rows they are

Every row names its owner and carries an organization, copied by hand wherever a row is
inserted. `Owned` says that the copies agree: the owner is there, in the organization of
the row. The requests keep it, as each copies the organization of a row it has read, with
four exceptions that leave the column to its default or move the owner alone:
`Operation.Strays` lists them.
-/

namespace Paari

open Atomic

/-- The owner of the row is there, in the organization the row carries. -/
def Row.Backed (db : DB) : Row → Prop
  | .parent _ _ => True
  | .delegation _ parent_pk org_id | .agent _ _ parent_pk org_id =>
    .parent parent_pk org_id ∈ db.rows
  | .credential _ agent_pk org_id => ∃ name pk, .agent agent_pk name pk org_id ∈ db.rows
  | .revocation _ agent_id org_id | .mandate _ agent_id org_id | .intent _ agent_id org_id
  | .authorization _ agent_id org_id | .txn _ agent_id org_id =>
    ∃ id pk, .agent id agent_id pk org_id ∈ db.rows
  | .challenge _ intent_id org_id =>
    ∃ name id pk, .intent intent_id name org_id ∈ db.rows ∧ .agent id name pk org_id ∈ db.rows

/-- Every row carries the organization of its owner. -/
structure Owned (db : DB) : Prop where
  parents : (db.parents.map ParentAuthority.id).Nodup
  backed : ∀ r ∈ db.rows, r.Backed db

section
variable {H : Host} {db db' : DB} {w : World} {q : Sight} {i : Nat}

theorem Row.Backed.mono (h : ∀ r ∈ db.rows, r ∈ db'.rows) {r : Row} (hr : r.Backed db) :
    r.Backed db' := by
  cases r with
  | parent _ _ => trivial
  | delegation _ _ _ | agent _ _ _ _ => exact h _ hr
  | credential _ _ _ =>
    obtain ⟨name, pk, hr⟩ := hr
    exact ⟨name, pk, h _ hr⟩
  | revocation _ _ _ | mandate _ _ _ | intent _ _ _ | authorization _ _ _ | txn _ _ _ =>
    obtain ⟨id, pk, hr⟩ := hr
    exact ⟨id, pk, h _ hr⟩
  | challenge _ _ _ =>
    obtain ⟨name, id, pk, hintent, hagent⟩ := hr
    exact ⟨name, id, pk, h _ hintent, h _ hagent⟩

theorem parent_pks_kept {x : Write} (h : db.apply x = some db')
    (hk : (db.parents.map ParentAuthority.id).Nodup) :
    (db'.parents.map ParentAuthority.id).Nodup := by
  rcases apply_parents h with ⟨p, -, heq, hnew⟩ | ⟨id, status, tier, -, heq⟩ | ⟨id, pem, -, heq⟩ | heq <;>
    rw [heq]
  · rw [List.map_append, List.map_singleton]
    refine List.nodup_append.mpr ⟨hk, List.nodup_singleton _, ?_⟩
    intro a ha b hb
    obtain ⟨q, hq, rfl⟩ := List.mem_map.mp ha
    obtain rfl := List.mem_singleton.mp hb
    exact hnew q hq
  · rw [map_updateWhere (fun _ => by rfl) _]
    exact hk
  · rw [map_updateWhere (fun _ => by rfl) _]
    exact hk
  · exact hk

/-- A transaction whose rows have their owners. -/
theorem Owned.commit (h : Owned db) {ws : List Write} (hdb : db.applyAll ws = .ok db')
    (hnew : ∀ x ∈ ws, ∀ r, x.row = some r → r.Backed db') : Owned db' where
  parents := applyAll_keeps_all (P := fun _ => True) (fun _ _ _ _ hap hk => parent_pks_kept hap hk)
    (fun _ _ => trivial) hdb h.parents
  backed r hr := by
    rcases (applyAll_rows hdb).mp hr with hold | ⟨x, hx, hrow⟩
    · exact (h.backed r hold).mono fun r hr => (applyAll_rows hdb).mpr (.inl hr)
    · exact hnew x hx r hrow

theorem Owned.congr (h : Owned db) (hrows : db'.rows = db.rows)
    (hparents : db'.parents.map ParentAuthority.id = db.parents.map ParentAuthority.id) :
    Owned db' where
  parents := hparents ▸ h.parents
  backed r hr := by
    rw [hrows] at hr
    exact (h.backed r hr).mono fun r hr => hrows ▸ hr

theorem Owned.use (h : Owned db) {as : List BoundedAuthorization}
    (hterms : as.map BoundedAuthorization.terms = db.authorizations.map BoundedAuthorization.terms) :
    Owned { db with authorizations := as } :=
  h.congr (rows_of_terms hterms) rfl

theorem Owned.rollback (h : Owned w.db) (i : Nat) : Owned (w.rollback i).db := by
  rw [rollback_db]
  exact h.use (onward_rollback i w).terms

/-! ## Grounded rows have their owners -/

/-- The agent of an intent that the handler took for its agent's. -/
theorem Owned.drawn (h : Owned db) (hsure : q.Sure db) {a : Agent} {i : PaymentIntent}
    (hi : q.Drawn a i) : ∃ id pk, .agent id i.agent_id pk i.org_id ∈ db.rows := by
  have hread : q.Intent i → ∃ id pk, .agent id i.agent_id pk i.org_id ∈ db.rows := by
    rintro ⟨d, hd, hmem⟩
    exact h.backed _ (hsure.seen d hd _ (intent_row_mem hmem))
  rcases hi with ⟨hi, -⟩ | ⟨i₀, hdone, -, -, rfl | ⟨hi, -⟩⟩
  · exact hread hi
  · exact h.backed _ (hsure.done _ hdone _ rfl)
  · exact hread hi

/-- What a request inserts, save what the legacy registration and a signed revocation do. -/
theorem Owned.grounded (h : Owned db) (hsure : q.Sure db) {ws : List Write}
    (hws : ∀ x ∈ ws, q.Grounds false ws x) (hdb : db.applyAll ws = .ok db') {x : Write}
    (hx : x ∈ ws) (hrevocation : ∀ r, x ≠ .insertRevocation r) {r : Row} (hr : x.row = some r) :
    r.Backed db' := by
  have hkeep : ∀ r ∈ db.rows, r ∈ db'.rows := fun r hr => (applyAll_rows hdb).mpr (.inl hr)
  have hsure' := hsure.commit hdb
  have hagent : ∀ {a : Agent}, q.Agent a → a.row ∈ db'.rows := by
    rintro a ⟨d, hd, ha⟩
    exact hkeep _ (hsure.seen d hd _ (agent_row_mem ha))
  have hparent : ∀ {p : ParentAuthority}, q.Parent p → p.row ∈ db'.rows := by
    rintro p ⟨-, d, hd, hp⟩
    exact hkeep _ (hsure.seen d hd _ (parent_row_mem hp))
  have hissued : ∀ u, q.Grounds false ws (.insertAuthorization u) →
      ∃ id pk, .agent id u.agent_id pk u.org_id ∈ db'.rows := by
    rintro u ⟨a, i, -, hi, -, hname, horg⟩
    obtain ⟨id, pk, hrow⟩ := h.drawn hsure hi
    exact ⟨id, pk, hname ▸ horg ▸ hkeep _ hrow⟩
  have hground := hws x hx
  cases x with
  | insertParent p =>
    obtain rfl := Option.some.inj hr
    trivial
  | insertDelegation d =>
    obtain rfl := Option.some.inj hr
    obtain ⟨p, hp, hpk, horg⟩ := hground
    show Row.parent d.parent_pk d.org_id ∈ db'.rows
    rw [hpk, horg]
    exact hparent hp
  | insertRevocation r => exact absurd rfl (hrevocation r)
  | insertAgent a =>
    obtain rfl := Option.some.inj hr
    obtain ⟨p, hp, hpk, horg⟩ := hground
    show Row.parent a.parent_pk a.org_id ∈ db'.rows
    rw [hpk, horg]
    exact hparent hp
  | insertCredential c =>
    obtain rfl := Option.some.inj hr
    show ∃ name pk, Row.agent c.agent_pk name pk c.org_id ∈ db'.rows
    rcases hground with ⟨a, hnew, hpk, horg⟩ | ⟨a, ha, hpk, horg⟩
    · have hrow : a.row ∈ db'.rows := hsure'.done _ (by
        rcases hnew with hnew | hnew
        · exact List.mem_append_right _ hnew
        · exact List.mem_append_left _ hnew) _ rfl
      rw [hpk, horg]
      exact ⟨_, _, hrow⟩
    · rw [hpk, horg]
      exact ⟨_, _, hagent ha.agent⟩
  | insertMandate m =>
    obtain rfl := Option.some.inj hr
    obtain ⟨a, ha, hname, horg⟩ := hground
    show ∃ id pk, Row.agent id m.agent_id pk m.org_id ∈ db'.rows
    rw [hname, horg]
    exact ⟨_, _, hagent ha⟩
  | insertIntent i =>
    obtain rfl := Option.some.inj hr
    obtain ⟨a, ha, hname, horg⟩ := hground
    show ∃ id pk, Row.agent id i.agent_id pk i.org_id ∈ db'.rows
    rw [hname, horg]
    exact ⟨_, _, hagent ha.agent⟩
  | insertChallenge c =>
    obtain rfl := Option.some.inj hr
    obtain ⟨i, ⟨d, hd, hi⟩, hid, horg⟩ := hground
    have hrow := hsure.seen d hd _ (intent_row_mem hi)
    obtain ⟨id, pk, hback⟩ := h.backed _ hrow
    show ∃ name id pk, Row.intent c.intent_id name c.org_id ∈ db'.rows ∧
      Row.agent id name pk c.org_id ∈ db'.rows
    rw [hid, horg]
    exact ⟨_, id, pk, hkeep _ hrow, hkeep _ hback⟩
  | insertAuthorization u =>
    obtain rfl := Option.some.inj hr
    exact hissued u hground
  | insertTxn t =>
    obtain rfl := Option.some.inj hr
    obtain ⟨u, hu, -, hname, horg⟩ := hground
    show ∃ id pk, Row.agent id t.agent_id pk t.org_id ∈ db'.rows
    rw [hname, horg]
    rcases hu with hu | ⟨d, hd, hu⟩
    · exact hissued u (hws _ hu)
    · obtain ⟨id, pk, hback⟩ := h.backed _ (hsure.seen d hd _ (authorization_row_mem hu))
      exact ⟨id, pk, hkeep _ hback⟩
  | _ => exact absurd hr nofun

/-- **What a request copies from the rows it has read agrees with them.** -/
theorem owned_keeps {P : Write → Prop} (hP : ∀ x, P x → ∀ r, x ≠ .insertRevocation r) :
    Sight.Keeps false P fun _ db => Owned db where
  read _ _ h := h
  commit _ _ _ _ h hsure _ _ hws hdb :=
    h.commit hdb fun x hx _ hr =>
      h.grounded hsure (fun y hy => (hws y hy).2) hdb hx (hP x (hws x hx).1) hr
  use _ _ _ hterms h := h.use hterms

/-! ## The routes that leave the column to its default -/

/-- The checks of the legacy registration, under the parent it finds. -/
structure EnrolsUnder (H : Host) (w : World) (req : AgentRegistrationRequest)
    (parent : ParentAuthority) : Prop where
  found : (w.db.parents.find? fun p => p.parent_id == req.delegation.parent_id).filter
    (fun p => p.status = .active) = some parent
  trusted : trust_refusal parent = none
  signed : H.verify_signature parent.public_key_pem (H.canonical_json req.delegation.json)
    req.delegation_signature_b64 = some true
  times : ∃ expires issued, Host.fromtimestamp req.delegation.expires_at = .ok expires ∧
    Host.fromtimestamp req.delegation.issued_at = .ok issued ∧ ¬ expires < w.clock
  bound : req.delegation.agent_public_key_fingerprint = H.public_key_fingerprint req.public_key_pem
  unused : w.db.delegations.any (fun r => r.delegation_id == req.delegation.delegation_id) = false

/-- The checks of a revocation that the parent signed, for the agent it finds. -/
structure SignsOff (H : Host) (w : World) (agent_id : String) (req : AgentRevokeRequest)
    (key : String) (agent : Agent) : Prop where
  found : w.db.agents.find? (fun a => a.agent_id == agent_id) = some agent
  unprivileged : H.is_admin_key key = false
  document : ∃ revocation_id issued_at signature parent,
    req.revocation_id.filter (· ≠ "") = some revocation_id ∧
    req.issued_at.filter (· ≠ 0) = some issued_at ∧
    req.parent_signature_b64.filter (· ≠ "") = some signature ∧
    parent_for w.db agent = some parent ∧
    (Host.timestamp w.clock - issued_at).natAbs ≤ REVOCATION_MAX_AGE_SECONDS ∧
    w.db.revocations.any (fun r => r.revocation_id == revocation_id) = false ∧
    H.verify_signature parent.public_key_pem (H.canonical_json (.dict [
      ("action", .str "revoke_agent"), ("agent_id", .str agent.agent_id),
      ("parent_id", .str parent.parent_id), ("revocation_id", .str revocation_id),
      ("issued_at", .int issued_at)])) signature = some true

/-- A commit of rows that have their owners, with the rest of the handler. -/
theorem owned_commit_wp {ws : List Write} {k : Unit → Handler Reply}
    {calls : List (Call × Option Answer)} (h : Owned w.db)
    (hnew : ∀ db', w.db.applyAll ws = .ok db' → ∀ x ∈ ws, ∀ r, x.row = some r → r.Backed db')
    (hk : ∀ db', w.db.applyAll ws = .ok db' → Owned db' →
      (k ()).Wp (World.exec i) (fun w' _ _ => Owned w'.db) calls ({ w with db := db' }.release i)) :
    (Handler.commit ws >>= k).Wp (World.exec i) (fun w' _ _ => Owned w'.db) calls w :=
  wp_commit (fun _ _ => h.rollback i) fun db' hdb =>
    hk db' hdb (h.commit hdb (hnew db' hdb))

theorem register_agent_owned (h : Owned w.db) {req : AgentRegistrationRequest}
    (horg : ∀ parent, EnrolsUnder H w req parent → parent.org_id = "default") :
    (register_agent H req).Wp (World.exec i) (fun w' _ _ => Owned w'.db) [] w := by
  refine wp_query ?_
  split
  · exact h
  next parent hparent =>
  split
  · exact h
  next htrusted =>
  split
  · exact h
  · exact h
  next hsigned =>
  refine wp_now ?_
  split
  · next expires issued hexpires hissued =>
    split
    · exact h
    next hlive =>
    dsimp only
    split
    · exact h
    next hbound =>
    refine wp_query ?_
    split
    · exact h
    next hunused =>
    have hdefault := horg parent ⟨hparent, htrusted, hsigned, ⟨expires, issued, hexpires, hissued,
      hlive⟩, by simpa using hbound, by simpa using hunused⟩
    obtain ⟨hfound, -⟩ := Option.filter_eq_some_iff.mp hparent
    have hrow : Row.parent parent.id "default" ∈ w.db.rows :=
      hdefault ▸ parent_row_mem (List.mem_of_find?_eq_some hfound)
    refine wp_fresh (wp_fresh (owned_commit_wp h ?_ fun db' hdb hdb' => ?_))
    · intro db' hdb x hx r hr
      have hkeep := (applyAll_rows hdb).mpr (.inl hrow)
      simp only [List.mem_cons, List.not_mem_nil, or_false] at hx
      rcases hx with rfl | rfl
      · obtain rfl := Option.some.inj hr
        exact hkeep
      · obtain rfl := Option.some.inj hr
        rw [hdefault]
        exact hkeep
    have hagent := (applyAll_rows hdb).mpr (.inr ⟨_, List.mem_cons_of_mem _ List.mem_cons_self, rfl⟩)
    refine Prog.wp_bind (wp_fresh (wp_now (wp_now ?_)))
    rw [Prog.pure_eq, Prog.wp_ret]
    refine owned_commit_wp hdb' (fun db'' hdb'' x hx r hr => ?_) fun db'' _ hdb'' => ?_
    · obtain rfl := List.mem_singleton.mp hx
      obtain rfl := Option.some.inj hr
      have hkeep := (applyAll_rows hdb'').mpr (.inl hagent)
      rw [Agent.row, hdefault] at hkeep
      exact ⟨_, _, hkeep⟩
    refine Prog.wp_bind (wp_record_audit (wp_record_audit ?_))
    rw [Prog.pure_eq, Prog.wp_ret]
    refine owned_commit_wp hdb'' (fun _ _ x hx r hr => ?_) fun _ _ h => h
    simp only [List.nil_append, List.cons_append, List.mem_cons, List.not_mem_nil, or_false] at hx
    rcases hx with rfl | rfl <;> cases hr
  · exact h

theorem revoke_agent_owned (h : Owned w.db) {id key : String} {req : AgentRevokeRequest}
    (horg : ∀ agent, SignsOff H w id req key agent → agent.org_id = "default") :
    (revoke_agent H id req key).Wp (World.exec i) (fun w' _ _ => Owned w'.db) [] w := by
  refine wp_query ?_
  split
  · exact h
  next agent hagent =>
  split
  · refine owned_commit_wp h (fun _ _ x hx r hr => ?_) fun _ _ h => h
    simp only [List.nil_append, List.mem_cons, List.not_mem_nil, or_false] at hx
    rcases hx with rfl | rfl <;> exact absurd hr nofun
  next hkey =>
  split
  · next revocation_id issued_at signature hid hissued hsignature =>
    refine wp_query ?_
    split
    · exact h
    next parent hparent =>
    refine wp_now ?_
    split
    · exact h
    next hage =>
    refine wp_query ?_
    split
    · exact h
    next hused =>
    dsimp only
    split
    · exact h
    · exact h
    next hsigned =>
    have hdefault := horg agent ⟨hagent, by simpa using hkey, revocation_id, issued_at, signature,
      parent, hid, hissued, hsignature, hparent, Nat.not_lt.mp hage, by simpa using hused, hsigned⟩
    refine owned_commit_wp h (fun db' hdb x hx r hr => ?_) fun _ _ h => h
    simp only [List.cons_append, List.nil_append, List.mem_cons, List.not_mem_nil, or_false] at hx
    rcases hx with rfl | rfl | rfl
    · obtain rfl := Option.some.inj hr
      have hrow := (applyAll_rows hdb).mpr (.inl (agent_row_mem (List.mem_of_find?_eq_some hagent)))
      rw [Agent.row, hdefault] at hrow
      exact ⟨_, _, hrow⟩
    · exact absurd hr nofun
    · exact absurd hr nofun
  · exact h

/-- Rows stay. -/
theorem rows_stable (P : Write → Prop) (r : Row) : Stable P fun db => r ∈ db.rows where
  write _ _ _ _ hap hr := (apply_rows hap).mpr (.inl hr)
  use _ _ hterms hr := by
    rw [rows_of_terms hterms]
    exact hr

end

/-- Only one request records a revocation. -/
theorem Request.Allows.insertRevocation {r : Request} {y : RevocationRecord}
    (h : r.Allows (.insertRevocation y)) : ∃ id req key, r = .revoke_agent id req key := by
  rcases h with (⟨_, hx⟩ | ⟨_, hx⟩) | hmay
  · exact absurd hx nofun
  · exact absurd hx nofun
  · cases r with
    | revoke_agent id req key => exact ⟨id, req, key, rfl⟩
    | consume _ _ _ | revoke_authorization _ _ _ | webhook _ _ | refund _ _ _ | reconcile _ _ _
    | batch _ => exact absurd hmay nofun
    | _ => exact absurd hmay (by simp [Request.mayWrite, Write.Mints, Write.Enrols])

/-- What leaves a row in the organization it was not given for: a legacy registration under a
parent outside the default organization, a signed revocation or a login challenge of an agent
outside it, and a move of a parent that has agents or delegations. -/
def Operation.Strays (H : Host) (p : Platform) : Operation → Prop
  | .serve (.register_agent req) _ =>
    ∃ parent, EnrolsUnder H p.world req parent ∧ parent.org_id ≠ "default"
  | .serve (.revoke_agent id req key) _ =>
    ∃ agent, SignsOff H p.world id req key agent ∧ agent.org_id ≠ "default"
  | .create_challenge id => ∃ agent,
    (p.world.db.agents.find? fun a => a.agent_id == id).filter (fun a => a.status = .active) =
      some agent ∧ agent.org_id ≠ "default"
  | .create_org req key => Platform.Founds H p req key ∧ ∃ parent,
    Platform.Names p.world.db req.parent_id parent ∧ parent.org_id ≠ req.org_id ∧
      ((∃ a ∈ p.world.db.agents, a.parent_pk = parent.id) ∨
        ∃ d ∈ p.world.db.delegations, d.parent_pk = parent.id)
  | _ => False

namespace Platform

variable {H : Host} {decode_credential_jwt : Instant → String → Option (String × String)}
  {p p' : Platform}

/-- Every row of the service carries the organization of its owner, its nonces too. -/
structure Tenanted (p : Platform) : Prop where
  db : Owned p.world.db
  nonces : ∀ n ∈ p.nonces, ∃ id pk, .agent id n.agent_id pk n.org_id ∈ p.world.db.rows

theorem Aside.mem_rows {db db' : DB} (h : Aside db db') {r : Row}
    (hr : ∀ id org, r ≠ .parent id org) : r ∈ db'.rows ↔ r ∈ db.rows := by
  have hparents : ∀ ps : List ParentAuthority, r ∉ ps.map ParentAuthority.row := by
    intro ps hmem
    obtain ⟨q, -, rfl⟩ := List.mem_map.mp hmem
    exact hr _ _ rfl
  unfold DB.rows
  rw [h.agents, h.delegations, h.revocations, h.credentials, h.mandates, h.intents, h.challenges,
    h.authorizations, h.txns]
  simp only [List.mem_append, hparents, false_or]

theorem Aside.rows {db db' : DB} (h : Aside db db')
    (hparents : db'.parents.map ParentAuthority.row = db.parents.map ParentAuthority.row) :
    db'.rows = db.rows := by
  unfold DB.rows
  rw [hparents, h.agents, h.delegations, h.revocations, h.credentials, h.mandates, h.intents,
    h.challenges, h.authorizations, h.txns]

theorem mem_parent_rows {db : DB} {id : Nat} {org : String} :
    .parent id org ∈ db.rows ↔ ∃ q ∈ db.parents, q.id = id ∧ q.org_id = org := by
  simp [DB.rows, ParentAuthority.row, DelegationRecord.row, RevocationRecord.row, Agent.row,
    Credential.row, UserPaymentMandate.row, PaymentIntent.row, MFAChallenge.row,
    BoundedAuthorization.row, ProviderTransaction.row]

theorem mem_delegation_rows {db : DB} {id : String} {pk : Nat} {org : String} :
    .delegation id pk org ∈ db.rows ↔ ∃ d ∈ db.delegations, d.delegation_id = id ∧
      d.parent_pk = pk ∧ d.org_id = org := by
  simp [DB.rows, ParentAuthority.row, DelegationRecord.row, RevocationRecord.row, Agent.row,
    Credential.row, UserPaymentMandate.row, PaymentIntent.row, MFAChallenge.row,
    BoundedAuthorization.row, ProviderTransaction.row]

/-- A parent on which nothing rests can move. -/
theorem owned_of_moved {db db' : DB} (haside : Aside db db') (h : Owned db) {q : ParentAuthority}
    {org : String} (hparents : db'.parents =
      updateWhere (fun r => r.id == q.id) (fun r => { r with org_id := org }) db.parents)
    (hagents : ∀ a ∈ db.agents, a.parent_pk ≠ q.id)
    (hdelegations : ∀ d ∈ db.delegations, d.parent_pk ≠ q.id) : Owned db' := by
  have hother : ∀ {pk o}, pk ≠ q.id → .parent pk o ∈ db.rows → .parent pk o ∈ db'.rows := by
    intro pk o hne hrow
    obtain ⟨r, hr, rfl, rfl⟩ := mem_parent_rows.mp hrow
    refine mem_parent_rows.mpr ⟨r, ?_, rfl, rfl⟩
    rw [hparents]
    exact mem_updateWhere.mpr ⟨r, hr, by rw [if_neg (by simpa using hne)]⟩
  refine ⟨?_, fun r hr => ?_⟩
  · rw [hparents, map_updateWhere (fun _ => by rfl) _]
    exact h.parents
  · have hback : (∀ id o, r ≠ .parent id o) → r.Backed db :=
      fun hne => h.backed r ((haside.mem_rows hne).mp hr)
    cases r with
    | parent _ _ => trivial
    | delegation id pk o =>
      obtain ⟨d, hd, -, rfl, -⟩ := mem_delegation_rows.mp ((haside.mem_rows (by simp)).mp hr)
      exact hother (hdelegations d hd) (hback (by simp))
    | agent id name pk o =>
      obtain ⟨a, ha, -, -, rfl, -⟩ := mem_agent_rows.mp ((haside.mem_rows (by simp)).mp hr)
      exact hother (hagents a ha) (hback (by simp))
    | credential _ _ _ =>
      obtain ⟨name, pk, hrow⟩ := hback (by simp)
      exact ⟨name, pk, (haside.mem_rows (by simp)).mpr hrow⟩
    | challenge _ _ _ =>
      obtain ⟨name, id, pk, hintent, hagent⟩ := hback (by simp)
      exact ⟨name, id, pk, (haside.mem_rows (by simp)).mpr hintent,
        (haside.mem_rows (by simp)).mpr hagent⟩
    | _ =>
      obtain ⟨id, pk, hrow⟩ := hback (by simp)
      exact ⟨id, pk, (haside.mem_rows (by simp)).mpr hrow⟩

/-- A parent is moved to where it already is. -/
theorem updateWhere_moved {q : ParentAuthority} {ps : List ParentAuthority} (hq : q ∈ ps)
    (hnodup : (ps.map ParentAuthority.id).Nodup) :
    updateWhere (fun r => r.id == q.id) (fun r => { r with org_id := q.org_id }) ps = ps := by
  unfold updateWhere
  refine (List.map_congr_left fun r hr => ?_).trans (List.map_id ps)
  split
  · next hid =>
    obtain rfl := List.inj_on_of_nodup_map hnodup hr hq (beq_iff_eq.mp hid)
    rfl
  · rfl

theorem create_org_tenanted (h : p.Tenanted) {req : CreateOrgRequest} {key : String}
    (hok : create_org H req key p = .ok p')
    (hop : ¬ (Operation.create_org req key).Strays H p) : p'.Tenanted := by
  obtain ⟨hfounds, hmoved, haside, -, hnonces⟩ := create_org_ok hok
  have hrows : ∀ {n : AuthNonce}, (∃ id pk, .agent id n.agent_id pk n.org_id ∈ p.world.db.rows) →
      ∃ id pk, .agent id n.agent_id pk n.org_id ∈ p'.world.db.rows := by
    rintro n ⟨id, pk, hrow⟩
    exact ⟨id, pk, (haside.mem_rows (by simp)).mpr hrow⟩
  refine ⟨?_, fun n hn => hrows (h.nonces n (hnonces ▸ hn))⟩
  rcases moved_eq hmoved with heq | ⟨q, hq, heq⟩
  · exact h.db.congr (haside.rows (by rw [heq])) (by rw [heq])
  by_cases hstays : q.org_id = req.org_id
  · obtain ⟨_, -, hfound⟩ := hq
    rw [← hstays, updateWhere_moved (List.mem_of_find?_eq_some hfound) h.db.parents] at heq
    exact h.db.congr (haside.rows (by rw [heq])) (by rw [heq])
  · refine owned_of_moved haside h.db heq (fun a ha hpk => ?_) fun d hd hpk => ?_
    · exact hop ⟨hfounds, q, hq, hstays, .inl ⟨a, ha, hpk⟩⟩
    · exact hop ⟨hfounds, q, hq, hstays, .inr ⟨d, hd, hpk⟩⟩

theorem record_parent_kyb_tenanted (h : p.Tenanted) {id ref key : String}
    (hok : record_parent_kyb H id ref key p = .ok p') : p'.Tenanted := by
  obtain ⟨haside, -, hnonces, sel, heq⟩ := record_parent_kyb_ok hok
  have hrows : p'.world.db.rows = p.world.db.rows := by
    refine haside.rows ?_
    rw [heq, map_updateWhere (fun _ => by rfl) _]
  refine ⟨h.db.congr hrows (by rw [heq, map_updateWhere (fun _ => by rfl) _]), fun n hn => ?_⟩
  rw [hrows]
  exact h.nonces n (hnonces ▸ hn)

theorem create_challenge_tenanted (h : p.Tenanted) {id : String}
    (hok : create_challenge H id p = .ok p')
    (hop : ¬ (Operation.create_challenge id).Strays H p) : p'.Tenanted := by
  obtain ⟨a, n, hfound, hname, horg, hnonces, hdb, -⟩ := create_challenge_ok hok
  have hdefault : a.org_id = "default" := by
    by_contra hne
    exact hop ⟨a, hfound, hne⟩
  obtain ⟨hfound, -⟩ := Option.filter_eq_some_iff.mp hfound
  refine ⟨hdb ▸ h.db, fun m hm => ?_⟩
  rw [hdb]
  rcases List.mem_append.mp (hnonces ▸ hm) with hm | hm
  · exact h.nonces m hm
  · obtain rfl := List.mem_singleton.mp hm
    rw [hname, horg, ← hdefault]
    exact ⟨_, _, agent_row_mem (List.mem_of_find?_eq_some hfound)⟩

theorem verify_challenge_tenanted (h : p.Tenanted) {req : VerifyRequest}
    (hok : verify_challenge H decode_credential_jwt req p = .ok p') : p'.Tenanted := by
  obtain ⟨haside, -, hparents, sel, hnonces⟩ := verify_challenge_ok hok
  have hrows : p'.world.db.rows = p.world.db.rows := haside.rows (by rw [hparents])
  refine ⟨h.db.congr hrows (by rw [hparents]), fun n' hn' => ?_⟩
  obtain ⟨n, hn, rfl⟩ := mem_updateWhere.mp (hnonces ▸ hn')
  rw [hrows]
  split
  · exact h.nonces n hn
  · exact h.nonces n hn

/-- One request. -/
theorem serve_owned (hkeys : p.world.db.Keys) (h : Owned p.world.db) {r : Request}
    {answers : List Answer} (hop : ¬ (Operation.serve r answers).Strays H p) :
    Owned (Server.serve H r answers p.world).store.db := by
  have hgrounded : r.legacy = false → (∀ x, r.Allows x → ∀ y, x ≠ .insertRevocation y) →
      Owned (Server.serve H r answers p.world).store.db := by
    intro hlegacy hP
    have hkeeps := owned_keeps hP
    rw [← hlegacy] at hkeeps
    obtain ⟨q, htied⟩ := serve_tied (H := H) hkeeps h hkeys answers 0
    exact htied.keep
  have hclose : (handler H r).Wp (World.exec 0) (fun w' _ _ => Owned w'.db) [] p.world →
      Owned (Server.serve H r answers p.world).store.db := by
    intro hwp
    refine Server.serve_spec (Q := fun w' _ _ => Owned w'.db) answers ?_
    exact Prog.wp_mono (fun _ _ _ h => h.rollback 0) hwp
  cases r with
  | register_agent req =>
    refine hclose (register_agent_owned h fun parent hparent => ?_)
    by_contra hne
    exact hop ⟨parent, hparent, hne⟩
  | revoke_agent id req key =>
    refine hclose (revoke_agent_owned h fun agent hagent => ?_)
    by_contra hne
    exact hop ⟨agent, hagent, hne⟩
  | _ =>
    refine hgrounded rfl ?_
    rintro x hx y rfl
    obtain ⟨_, _, _, heq⟩ := hx.insertRevocation
    exact absurd heq nofun

theorem step_tenanted (hp : p.world.Orderly) (h : p.Tenanted) {op : Operation}
    (hop : ¬ op.Strays H p) : (step H decode_credential_jwt p op).Tenanted := by
  -- a refused operation leaves the platform as it was
  have hok : ∀ {r : Except Reply Platform}, (∀ p', r = .ok p' → p'.Tenanted) →
      (r.toOption.getD p).Tenanted := by
    intro r hr
    cases r with
    | error e => exact h
    | ok p' => exact hr p' rfl
  cases op with
  | serve r answers =>
    refine ⟨serve_owned hp.keys h.db hop, fun n hn => ?_⟩
    obtain ⟨id, pk, hrow⟩ := h.nonces n hn
    exact ⟨id, pk, (rows_stable _ _).serve answers 0 hrow⟩
  | create_org req key => exact hok fun p' h' => create_org_tenanted h h' hop
  | record_parent_kyb id ref key => exact hok fun p' h' => record_parent_kyb_tenanted h h'
  | create_challenge id => exact hok fun p' h' => create_challenge_tenanted h h' hop
  | verify_challenge req => exact hok fun p' h' => verify_challenge_tenanted h h'
  | tick d => exact ⟨h.db, h.nonces⟩

end Platform

namespace Sample

/-- A service nobody has used yet. -/
def unused : Platform := ⟨world DB.empty, [], []⟩

theorem unused_orderly : unused.world.Orderly :=
  ⟨DB.Keys.empty, fun _ h => absurd h List.not_mem_nil, rfl⟩

theorem unused_tenanted : unused.Tenanted :=
  ⟨⟨List.nodup_nil, fun _ h => absurd h List.not_mem_nil⟩, fun _ h => absurd h List.not_mem_nil⟩

def registration : List Operation :=
  [.serve (.register_parent ⟨"company", "a@b", "pem"⟩) [],
    .serve (.approve_parent "uu" "admin") []]

/-- The parent of another tenant registers an agent on the legacy route. -/
def tenancy : List Operation :=
  registration ++ [.create_org ⟨"acme", "Acme", some "uu"⟩ "admin",
    .serve (.register_agent ⟨"key", ⟨"d", "uu", "key", ["make_payment"], 1000, "INR", 0, 1000⟩,
      "signature"⟩) []]

end Sample

end Paari
