import Paari.Effects

/-!
# One write, table by table

What a write that goes through does to each table that authority rests on: which
writes touch it, and how. Every result on those tables reads `DB.apply` through these
lemmas only. From them: unique keys stay unique, and a row that is dead stays dead.
-/

namespace Paari

variable {α κ : Type}

theorem insertUnique_eq {clash : α → Bool} {r : α} {rows rows' : List α}
    (h : insertUnique clash r rows = some rows') :
    rows' = rows ++ [r] ∧ ∀ r' ∈ rows, clash r' = false := by
  unfold insertUnique at h
  split at h
  · exact absurd h (by simp)
  · next hclash =>
    refine ⟨(Option.some.inj h).symm, fun r' hr' => ?_⟩
    simp only [List.any_eq_true, not_exists, not_and, Bool.not_eq_true] at hclash
    exact hclash r' hr'

theorem mem_updateWhere {p : α → Bool} {f : α → α} {rows : List α} {r' : α} :
    r' ∈ updateWhere p f rows ↔ ∃ r ∈ rows, r' = if p r then f r else r := by
  unfold updateWhere
  rw [List.mem_map]
  exact ⟨fun ⟨r, hr, h⟩ => ⟨r, hr, h.symm⟩, fun ⟨r, hr, h⟩ => ⟨r, hr, h.symm⟩⟩

/-- A row under a new key. -/
theorem nodup_append_one {key : α → κ} {rows : List α} {r : α} (h : (rows.map key).Nodup)
    (hnew : ∀ r' ∈ rows, key r' ≠ key r) : ((rows ++ [r]).map key).Nodup := by
  rw [List.map_append, List.nodup_append]
  refine ⟨h, List.nodup_singleton _, fun k hk k' hk' => ?_⟩
  obtain ⟨r', hr', rfl⟩ := List.mem_map.mp hk
  obtain rfl := List.mem_singleton.mp hk'
  exact hnew r' hr'

/-- An update that leaves a column alone. -/
theorem map_updateWhere {key : α → κ} {p : α → Bool} {f : α → α} (hf : ∀ r, key (f r) = key r)
    (rows : List α) : (updateWhere p f rows).map key = rows.map key := by
  unfold updateWhere
  rw [List.map_map]
  refine List.map_congr_left fun r _ => ?_
  show key (if _ then _ else _) = _
  split
  · exact hf r
  · rfl

theorem nodup_updateWhere {key : α → κ} {p : α → Bool} {f : α → α} {rows : List α}
    (h : (rows.map key).Nodup) (hf : ∀ r, key (f r) = key r) :
    ((updateWhere p f rows).map key).Nodup := by
  rw [map_updateWhere hf]
  exact h

/-! ## The tables -/

/-- The tables authority rests on, and the rest. -/
inductive Table
  | parents | agents | credentials | mandates | intents | authorizations | other
deriving DecidableEq

/-- The table a write touches. -/
def Write.table : Write → Table
  | .insertParent _ | .setParentStatus _ _ _ | .setParentKey _ _ => .parents
  | .insertAgent _ | .rotateAgent _ _ | .revokeAgent _ => .agents
  | .insertCredential _ | .revokeCredentials _ | .revokeCredential _ _ => .credentials
  | .insertMandate _ | .setMandateStatus _ _ _ => .mandates
  | .insertIntent _ | .decideIntent _ _ _ _ => .intents
  | .insertAuthorization _ => .authorizations
  | _ => .other

section
variable {db db' : DB} {x : Write}

/-- A write leaves every table but its own alone. -/
structure Frame (x : Write) (db db' : DB) : Prop where
  parents : x.table ≠ .parents → db'.parents = db.parents
  agents : x.table ≠ .agents → db'.agents = db.agents
  credentials : x.table ≠ .credentials → db'.credentials = db.credentials
  mandates : x.table ≠ .mandates → db'.mandates = db.mandates
  intents : x.table ≠ .intents → db'.intents = db.intents
  authorizations : x.table ≠ .authorizations → db'.authorizations = db.authorizations

theorem Frame.of_apply (h : db.apply x = some db') : Frame x db db' := by
  cases x with
  | updateTxn l c =>
    simp only [DB.apply] at h
    split at h
    · exact absurd h (by simp)
    · obtain rfl := Option.some.inj h
      constructor <;> exact fun _ => rfl
  | _ =>
    -- an update, or an insert under a unique key
    first
      | obtain rfl := Option.some.inj h
        constructor <;> first | exact fun _ => rfl | exact fun hne => absurd rfl hne
      | obtain ⟨_, _, hrows⟩ := Option.bind_eq_some_iff.mp h
        obtain rfl := Option.some.inj hrows
        constructor <;> first | exact fun _ => rfl | exact fun hne => absurd rfl hne

theorem apply_parents (h : db.apply x = some db') :
    (∃ p, x = .insertParent p ∧ db'.parents = db.parents ++ [p] ∧
      ∀ q ∈ db.parents, q.id ≠ p.id) ∨
    (∃ id status tier, x = .setParentStatus id status tier ∧
      db'.parents = updateWhere (fun p => p.id == id)
        (fun p => { p with status := status, trust_tier := tier.getD p.trust_tier }) db.parents) ∨
    (∃ id pem, x = .setParentKey id pem ∧
      db'.parents = updateWhere (fun p => p.id == id)
        (fun p => { p with public_key_pem := pem }) db.parents) ∨
    db'.parents = db.parents := by
  cases x with
  | insertParent p =>
    obtain ⟨rows, hrows, heq⟩ := Option.bind_eq_some_iff.mp h
    obtain ⟨rfl, hclash⟩ := insertUnique_eq hrows
    refine .inl ⟨p, rfl, by rw [← Option.some.inj heq], fun q hq hid => ?_⟩
    have := hclash q hq
    simp [hid] at this
  | setParentStatus id status tier =>
    exact .inr (.inl ⟨id, status, tier, rfl, by rw [← Option.some.inj h]⟩)
  | setParentKey id pem => exact .inr (.inr (.inl ⟨id, pem, rfl, by rw [← Option.some.inj h]⟩))
  | _ => exact .inr (.inr (.inr ((Frame.of_apply h).parents nofun)))

/-- The columns a rotation assigns. -/
def Agent.rotate (r : Rotation) (a : Agent) : Agent :=
  { a with
    old_public_key_pem := some a.public_key_pem
    key_sunset_at := some r.key_sunset_at
    public_key_pem := r.public_key_pem
    delegation_id := r.delegation_id
    granted_capabilities := r.granted_capabilities
    payment_limit_minor_units := r.payment_limit_minor_units
    currency := r.currency
    valid_until := some r.valid_until }

theorem apply_agents (h : db.apply x = some db') :
    (∃ a, x = .insertAgent a ∧ db'.agents = db.agents ++ [a] ∧
      ∀ b ∈ db.agents, b.id ≠ a.id ∧ b.agent_id ≠ a.agent_id) ∨
    (∃ id r, x = .rotateAgent id r ∧
      db'.agents = updateWhere (fun a => a.id == id) (Agent.rotate r) db.agents) ∨
    (∃ id, x = .revokeAgent id ∧
      db'.agents = updateWhere (fun a => a.id == id)
        (fun a => { a with status := .revoked }) db.agents) ∨
    db'.agents = db.agents := by
  cases x with
  | insertAgent a =>
    obtain ⟨rows, hrows, heq⟩ := Option.bind_eq_some_iff.mp h
    obtain ⟨rfl, hclash⟩ := insertUnique_eq hrows
    refine .inl ⟨a, rfl, by rw [← Option.some.inj heq], fun b hb => ?_⟩
    have := hclash b hb
    simpa using this
  | rotateAgent id r => exact .inr (.inl ⟨id, r, rfl, by rw [← Option.some.inj h]; rfl⟩)
  | revokeAgent id => exact .inr (.inr (.inl ⟨id, rfl, by rw [← Option.some.inj h]⟩))
  | _ => exact .inr (.inr (.inr ((Frame.of_apply h).agents nofun)))

theorem apply_credentials (h : db.apply x = some db') :
    (∃ c, x = .insertCredential c ∧ db'.credentials = db.credentials ++ [c] ∧
      ∀ d ∈ db.credentials, d.credential_id ≠ c.credential_id) ∨
    (∃ pk, x = .revokeCredentials pk ∧
      db'.credentials = updateWhere (fun c => c.agent_pk == pk)
        (fun c => { c with revoked := true }) db.credentials) ∨
    (∃ id by_, x = .revokeCredential id by_ ∧
      db'.credentials = updateWhere (fun c => c.credential_id == id)
        (fun c => { c with revoked := true, superseded_by := by_.orElse fun _ => c.superseded_by })
        db.credentials) ∨
    db'.credentials = db.credentials := by
  cases x with
  | insertCredential c =>
    obtain ⟨rows, hrows, heq⟩ := Option.bind_eq_some_iff.mp h
    obtain ⟨rfl, hclash⟩ := insertUnique_eq hrows
    refine .inl ⟨c, rfl, by rw [← Option.some.inj heq], fun d hd => ?_⟩
    simpa using hclash d hd
  | revokeCredentials pk => exact .inr (.inl ⟨pk, rfl, by rw [← Option.some.inj h]⟩)
  | revokeCredential id by_ => exact .inr (.inr (.inl ⟨id, by_, rfl, by rw [← Option.some.inj h]⟩))
  | _ => exact .inr (.inr (.inr ((Frame.of_apply h).credentials nofun)))

theorem apply_mandates (h : db.apply x = some db') :
    (∃ m, x = .insertMandate m ∧ db'.mandates = db.mandates ++ [m] ∧
      ∀ n ∈ db.mandates, n.mandate_id ≠ m.mandate_id) ∨
    (∃ id status t, x = .setMandateStatus id status t ∧
      db'.mandates = updateWhere (fun m => m.mandate_id == id)
        (fun m => { m with status := status, revoked_at := t.orElse fun _ => m.revoked_at })
        db.mandates) ∨
    db'.mandates = db.mandates := by
  cases x with
  | insertMandate m =>
    obtain ⟨rows, hrows, heq⟩ := Option.bind_eq_some_iff.mp h
    obtain ⟨rfl, hclash⟩ := insertUnique_eq hrows
    refine .inl ⟨m, rfl, by rw [← Option.some.inj heq], fun n hn => ?_⟩
    simpa using hclash n hn
  | setMandateStatus id status t =>
    exact .inr (.inl ⟨id, status, t, rfl, by rw [← Option.some.inj h]⟩)
  | _ => exact .inr (.inr ((Frame.of_apply h).mandates nofun))

/-- The columns a decision assigns. -/
def PaymentIntent.decide (decision : GovernanceDecision) (mfa_verified : Bool)
    (reasons : List String) (i : PaymentIntent) : PaymentIntent :=
  { i with decision := decision, mfa_verified := mfa_verified, reasons := reasons }

theorem apply_intents (h : db.apply x = some db') :
    (∃ i, x = .insertIntent i ∧ db'.intents = db.intents ++ [i] ∧
      ∀ j ∈ db.intents, j.intent_id ≠ i.intent_id ∧
        ¬ (j.agent_id = i.agent_id ∧ j.idempotency_key = i.idempotency_key)) ∨
    (∃ id decision verified reasons, x = .decideIntent id decision verified reasons ∧
      db'.intents = updateWhere (fun i => i.intent_id == id)
        (PaymentIntent.decide decision verified reasons) db.intents) ∨
    db'.intents = db.intents := by
  cases x with
  | insertIntent i =>
    obtain ⟨rows, hrows, heq⟩ := Option.bind_eq_some_iff.mp h
    obtain ⟨rfl, hclash⟩ := insertUnique_eq hrows
    refine .inl ⟨i, rfl, by rw [← Option.some.inj heq], fun j hj => ?_⟩
    have := hclash j hj
    simpa using this
  | decideIntent id decision verified reasons =>
    exact .inr (.inl ⟨id, decision, verified, reasons, rfl, by rw [← Option.some.inj h]; rfl⟩)
  | _ => exact .inr (.inr ((Frame.of_apply h).intents nofun))

theorem apply_authorizations (h : db.apply x = some db') :
    (∃ a, x = .insertAuthorization a ∧ db'.authorizations = db.authorizations ++ [a] ∧
      ∀ b ∈ db.authorizations, b.authorization_id ≠ a.authorization_id) ∨
    db'.authorizations = db.authorizations := by
  cases x with
  | insertAuthorization a =>
    obtain ⟨rows, hrows, heq⟩ := Option.bind_eq_some_iff.mp h
    obtain ⟨rfl, hclash⟩ := insertUnique_eq hrows
    refine .inl ⟨a, rfl, by rw [← Option.some.inj heq], fun b hb => ?_⟩
    simpa using hclash b hb
  | _ => exact .inr ((Frame.of_apply h).authorizations nofun)

/-! ## Unique keys -/

/-- The unique constraints the results rely on. -/
structure DB.Keys (db : DB) : Prop where
  agents : (db.agents.map Agent.agent_id).Nodup
  agent_pks : (db.agents.map Agent.id).Nodup
  intents : (db.intents.map PaymentIntent.intent_id).Nodup
  slots : (db.intents.map fun i => (i.agent_id, i.idempotency_key)).Nodup
  authorizations : (db.authorizations.map BoundedAuthorization.authorization_id).Nodup

theorem DB.Keys.empty : DB.empty.Keys := by
  constructor <;> exact List.nodup_nil

theorem apply_keys (h : db.apply x = some db') (hk : db.Keys) : db'.Keys where
  agents := by
    rcases apply_agents h with ⟨a, _, heq, hnew⟩ | ⟨id, r, _, heq⟩ | ⟨id, _, heq⟩ | heq <;> rw [heq]
    · exact nodup_append_one hk.agents fun b hb => (hnew b hb).2
    · exact nodup_updateWhere hk.agents fun _ => rfl
    · exact nodup_updateWhere hk.agents fun _ => rfl
    · exact hk.agents
  agent_pks := by
    rcases apply_agents h with ⟨a, _, heq, hnew⟩ | ⟨id, r, _, heq⟩ | ⟨id, _, heq⟩ | heq <;> rw [heq]
    · exact nodup_append_one hk.agent_pks fun b hb => (hnew b hb).1
    · exact nodup_updateWhere hk.agent_pks fun _ => rfl
    · exact nodup_updateWhere hk.agent_pks fun _ => rfl
    · exact hk.agent_pks
  intents := by
    rcases apply_intents h with ⟨i, _, heq, hnew⟩ | ⟨id, d, v, rs, _, heq⟩ | heq <;> rw [heq]
    · exact nodup_append_one hk.intents fun j hj => (hnew j hj).1
    · exact nodup_updateWhere hk.intents fun _ => rfl
    · exact hk.intents
  slots := by
    rcases apply_intents h with ⟨i, _, heq, hnew⟩ | ⟨id, d, v, rs, _, heq⟩ | heq <;> rw [heq]
    · exact nodup_append_one hk.slots fun j hj hslot => (hnew j hj).2 (Prod.mk.inj hslot)
    · exact nodup_updateWhere hk.slots fun _ => rfl
    · exact hk.slots
  authorizations := by
    rcases apply_authorizations h with ⟨a, _, heq, hnew⟩ | heq <;> rw [heq]
    · exact nodup_append_one hk.authorizations hnew
    · exact hk.authorizations

/-! ## No row is lost -/

theorem apply_parent_pks (h : db.apply x = some db') :
    db.parents.map ParentAuthority.id <+: db'.parents.map ParentAuthority.id := by
  rcases apply_parents h with ⟨p, _, heq, _⟩ | ⟨id, status, tier, _, heq⟩ | ⟨id, pem, _, heq⟩ | heq
  · rw [heq, List.map_append]
    exact List.prefix_append _ _
  · rw [heq, map_updateWhere fun _ => by rfl]
  · rw [heq, map_updateWhere fun _ => by rfl]
  · rw [heq]

theorem apply_credential_ids (h : db.apply x = some db') :
    db.credentials.map Credential.credential_id <+:
      db'.credentials.map Credential.credential_id := by
  rcases apply_credentials h with ⟨c, _, heq, _⟩ | ⟨pk, _, heq⟩ | ⟨id, by_, _, heq⟩ | heq
  · rw [heq, List.map_append]
    exact List.prefix_append _ _
  · rw [heq, map_updateWhere fun _ => by rfl]
  · rw [heq, map_updateWhere fun _ => by rfl]
  · rw [heq]

theorem apply_mandate_ids (h : db.apply x = some db') :
    db.mandates.map UserPaymentMandate.mandate_id <+:
      db'.mandates.map UserPaymentMandate.mandate_id := by
  rcases apply_mandates h with ⟨m, _, heq, _⟩ | ⟨id, status, t, _, heq⟩ | heq
  · rw [heq, List.map_append]
    exact List.prefix_append _ _
  · rw [heq, map_updateWhere fun _ => by rfl]
  · rw [heq]

end

/-! ## A whole transaction -/

/-- What each write keeps, the transaction keeps. -/
theorem applyAll_keeps_all {K : DB → Prop} {P : Write → Prop}
    (hstep : ∀ db db' x, P x → db.apply x = some db' → K db → K db') {ws : List Write} :
    ∀ {db db' : DB}, (∀ x ∈ ws, P x) → db.applyAll ws = .ok db' → K db → K db' := by
  induction ws with
  | nil => intro db db' _ h hK; rwa [← Except.ok.inj h]
  | cons x ws ih =>
    intro db db' hws h hK
    obtain ⟨mid, hmid, hrest⟩ := applyAll_cons h
    refine ih (fun y hy => hws y (List.mem_cons_of_mem _ hy)) hrest ?_
    exact hstep db mid x (hws x List.mem_cons_self) hmid hK

/-- A write of the transaction brings about `K`: `J` holds up to it, `K` from it on. -/
theorem applyAll_brings {J K : DB → Prop} {P : Write → Prop} {x : Write}
    (hJ : ∀ db db' y, P y → y ≠ x → db.apply y = some db' → J db → J db')
    (hx : ∀ db db', db.apply x = some db' → J db → K db')
    (hK : ∀ db db' y, P y → db.apply y = some db' → K db → K db') {ws : List Write} :
    ∀ {db db' : DB}, x ∈ ws → (∀ y ∈ ws, P y) → db.applyAll ws = .ok db' → J db → K db' := by
  induction ws with
  | nil => intro db db' hmem; exact absurd hmem List.not_mem_nil
  | cons y ws ih =>
    intro db db' hmem hws h hj
    obtain ⟨mid, hmid, hrest⟩ := applyAll_cons h
    have hws' : ∀ y ∈ ws, P y := fun z hz => hws z (List.mem_cons_of_mem _ hz)
    by_cases hy : y = x
    · subst hy
      exact applyAll_keeps_all hK hws' hrest (hx db mid hmid hj)
    · refine ih ((List.mem_cons.mp hmem).resolve_left fun h => hy h.symm) hws' hrest ?_
      exact hJ db mid y (hws y List.mem_cons_self) hy hmid hj

/-! ## Rows that stay dead -/

/-- A row with the key is there, and every row with the key is dead. -/
def Dead (key : α → κ) (dead : α → Prop) (k : κ) (rows : List α) : Prop :=
  (∃ r ∈ rows, key r = k) ∧ ∀ r ∈ rows, key r = k → dead r

namespace Dead

variable {key : α → κ} {dead : α → Prop} {k : κ} {rows : List α} {p : α → Bool} {f : α → α}

/-- The key is taken, so a new row has another. -/
theorem append {r : α} (h : Dead key dead k rows) (hnew : ∀ r' ∈ rows, key r' ≠ key r) :
    Dead key dead k (rows ++ [r]) := by
  obtain ⟨⟨r₀, hr₀, hk⟩, hall⟩ := h
  refine ⟨⟨r₀, List.mem_append_left _ hr₀, hk⟩, fun r' hr' hk' => ?_⟩
  rcases List.mem_append.mp hr' with hr' | hr'
  · exact hall r' hr' hk'
  · obtain rfl := List.mem_singleton.mp hr'
    exact absurd (hk.trans hk'.symm) (hnew r₀ hr₀)

/-- An update that leaves the key, and revives no row with it. -/
theorem update_keyed (h : Dead key dead k rows) (hkey : ∀ r, key (f r) = key r)
    (hdead : ∀ r, key r = k → p r = true → dead r → dead (f r)) :
    Dead key dead k (updateWhere p f rows) := by
  obtain ⟨⟨r₀, hr₀, hk⟩, hall⟩ := h
  refine ⟨⟨_, mem_updateWhere.mpr ⟨r₀, hr₀, rfl⟩, ?_⟩, fun r' hr' hk' => ?_⟩
  · split
    · exact (hkey r₀).trans hk
    · exact hk
  · obtain ⟨r, hr, rfl⟩ := mem_updateWhere.mp hr'
    by_cases hp : p r = true
    · rw [if_pos hp] at hk' ⊢
      have hr' := (hkey r).symm.trans hk'
      exact hdead r hr' hp (hall r hr hr')
    · rw [if_neg hp] at hk' ⊢
      exact hall r hr hk'

theorem update (h : Dead key dead k rows) (hkey : ∀ r, key (f r) = key r)
    (hdead : ∀ r, dead r → dead (f r)) : Dead key dead k (updateWhere p f rows) :=
  h.update_keyed hkey fun r _ _ => hdead r

/-- The update that kills them. -/
theorem strike (hrow : ∃ r ∈ rows, key r = k) (hkey : ∀ r, key (f r) = key r)
    (hp : ∀ r ∈ rows, key r = k → p r = true) (hdead : ∀ r, dead (f r)) :
    Dead key dead k (updateWhere p f rows) := by
  obtain ⟨r₀, hr₀, hk⟩ := hrow
  refine ⟨⟨_, mem_updateWhere.mpr ⟨r₀, hr₀, rfl⟩, ?_⟩, fun r' hr' hk' => ?_⟩
  · rw [if_pos (hp r₀ hr₀ hk)]
    exact (hkey r₀).trans hk
  · obtain ⟨r, hr, rfl⟩ := mem_updateWhere.mp hr'
    by_cases hpr : p r = true
    · rw [if_pos hpr]
      exact hdead r
    · rw [if_neg hpr] at hk'
      exact absurd (hp r hr hk') hpr

end Dead

end Paari
