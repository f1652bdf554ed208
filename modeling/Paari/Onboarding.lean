import Paari.Rows

/-!
# The routes around the core

Organizations, KYB records and authentication challenges: the admin and onboarding routes
that move no money. They run here one at a time between the requests of `Server`, over the
service with its two further tables. A refused operation changes nothing.
-/

namespace Paari

open Atomic
open Host (MINUTE)

/-- A tenant. -/
structure Organization where
  org_id : String
  name : String
deriving DecidableEq

/-- A challenge an agent signs to get a session. -/
structure AuthNonce where
  nonce : String
  org_id : String
  agent_id : String
  expires_at : Instant
  used : Bool
deriving DecidableEq

structure CreateOrgRequest where
  org_id : String
  name : String
  parent_id : Option String

structure VerifyRequest where
  agent_id : String
  nonce : String
  signature_b64 : String
  credential_jwt : String

/-- The service with the tables only these routes use. -/
structure Platform where
  world : World
  organizations : List Organization
  nonces : List AuthNonce

def CHALLENGE_NONCE_TTL : Int := 2 * MINUTE

/-- An exception nothing catches. -/
def uncaught : Reply := http 500 "Internal Server Error"

namespace Platform

/-- One more event in the trail. -/
def logged (H : Host) (p : Platform) (db : DB) (a : AuditArgs) : World :=
  { p.world with db := { db with audits := db.audits ++ [auditEvent H [] a db p.world.clock] } }

/-- The parents once the named one is in the organization; `none` if there is no such parent. -/
def moved (db : DB) (parent_id : Option String) (org_id : String) : Option (List ParentAuthority) :=
  match parent_id.filter (· ≠ "") with
  | none => some db.parents
  | some id => (db.parents.find? fun q => q.parent_id == id).map fun parent =>
      updateWhere (fun q => q.id == parent.id) (fun q => { q with org_id := org_id }) db.parents

/-- `create_org` -/
def create_org (H : Host) (req : CreateOrgRequest) (x_admin_api_key : String) (p : Platform) :
    Except Reply Platform := do
  H.require_admin_org x_admin_api_key ""
  if req.org_id = "" ∨ req.name = "" then .error (http 400 "org_id and name are required")
  else if p.organizations.any fun o => o.org_id == req.org_id then
    .error (http 409 "Organization already exists")
  else
    match moved p.world.db req.parent_id req.org_id with
    | none => .error (http 404 "Parent authority not found")
    | some parents => .ok { p with
        organizations := p.organizations ++ [⟨req.org_id, req.name⟩]
        world := p.logged H { p.world.db with parents := parents } {
          transaction_id := "org:" ++ req.org_id, agent_id := "", parent_id := req.parent_id
          kind := "org_created", org_id := some req.org_id
          detail := [("org_id", .str req.org_id), ("name", .str req.name)] } }

/-- `record_parent_kyb` -/
def record_parent_kyb (H : Host) (parent_id provider_ref x_admin_api_key : String) (p : Platform) :
    Except Reply Platform :=
  match p.world.db.parents.find? fun q => q.parent_id == parent_id with
  | none => .error (http 404 "Parent authority not found")
  | some parent => do
    H.require_admin_org x_admin_api_key parent.org_id
    let parents := updateWhere (fun q => q.id == parent.id)
      (fun q => { q with trust_tier := "kyb_verified" }) p.world.db.parents
    .ok { p with
      world := p.logged H { p.world.db with parents := parents } {
        transaction_id := "parent:" ++ parent_id, agent_id := "", parent_id := some parent_id
        kind := "kyb_verified", org_id := some parent.org_id
        detail := [("provider_ref", .str provider_ref)] } }

/-- `create_challenge`: the organization column of the nonce is left to its default. -/
def create_challenge (H : Host) (agent_id : String) (p : Platform) : Except Reply Platform :=
  match (p.world.db.agents.find? fun a => a.agent_id == agent_id).filter fun a =>
      a.status = .active with
  | none => .error (http 401 "Agent not eligible to authenticate")
  | some agent =>
    let nonce : AuthNonce := {
      nonce := H.uuid4 p.world.next, org_id := "default", agent_id := agent.agent_id
      expires_at := p.world.clock + CHALLENGE_NONCE_TTL, used := false }
    match insertUnique (fun n => n.nonce == nonce.nonce) nonce p.nonces with
    | none => .error uncaught
    | some nonces => .ok { p with
        nonces := nonces
        world := { p.world with next := p.world.next + 1 } }

/-- The current key signed the nonce, or the old one within its grace. -/
def signedNonce (H : Host) (agent : Agent) (now : Instant) (req : VerifyRequest) : Option Bool :=
  match H.verify_signature agent.public_key_pem req.nonce req.signature_b64 with
  | none => none
  | some true => some true
  | some false =>
    match agent.old_public_key_pem, agent.key_sunset_at with
    | some old, some sunset =>
      if old ≠ "" ∧ now < sunset then H.verify_signature old req.nonce req.signature_b64
      else some false
    | _, _ => some false

/-- `verify_challenge`; `decode_credential_jwt` gives the `sub` and `jti` of a credential. -/
def verify_challenge (H : Host) (decode_credential_jwt : Instant → String → Option (String × String))
    (req : VerifyRequest) (p : Platform) : Except Reply Platform :=
  let db := p.world.db
  let now := p.world.clock
  match (db.agents.find? fun a => a.agent_id == req.agent_id).filter fun a => a.status = .active with
  | none => .error (http 401 "Agent not eligible to authenticate")
  | some agent =>
  match decode_credential_jwt now req.credential_jwt with
  | none => .error (http 401 "Invalid or expired credential")
  | some (sub, jti) =>
  if sub ≠ agent.agent_id then .error (http 401 "Credential does not match agent") else
  match (db.credentials.find? fun c => c.credential_id == jti).filter fun c => !c.revoked with
  | none => .error (http 401 "Credential has been revoked")
  | some credential =>
  if credential.expires_at < now then .error (http 401 "Credential has expired") else
  match p.nonces.find? fun n => n.nonce == req.nonce && n.agent_id == req.agent_id with
  | none => .error (http 401 "Challenge invalid, expired, or already used")
  | some nonce =>
  if nonce.used ∨ nonce.expires_at < now then
    .error (http 401 "Challenge invalid, expired, or already used")
  else
  match signedNonce H agent now req with
  | none => .error uncaught
  | some false => .error (http 401 "Signature verification failed")
  | some true => .ok { p with
      nonces := updateWhere (fun n => n.nonce == nonce.nonce) (fun n => { n with used := true }) p.nonces
      world := p.logged H db {
        transaction_id := "auth:" ++ req.nonce, agent_id := agent.agent_id
        parent_id := (parent_for db agent).map ParentAuthority.parent_id
        kind := "challenge_verified", org_id := none
        detail := [("credential_id", .str credential.credential_id)] } }

end Platform

/-- Everything the API does, one operation at a time. -/
inductive Operation
  | serve (r : Request) (answers : List Answer)
  | create_org (req : CreateOrgRequest) (x_admin_api_key : String)
  | record_parent_kyb (parent_id provider_ref x_admin_api_key : String)
  | create_challenge (agent_id : String)
  | verify_challenge (req : VerifyRequest)
  | tick (d : Nat)

namespace Platform

variable (H : Host) (decode_credential_jwt : Instant → String → Option (String × String))

/-- One operation. -/
def step (p : Platform) : Operation → Platform
  | .serve r answers => { p with world := (Server.serve H r answers p.world).store }
  | .create_org req key => (create_org H req key p).toOption.getD p
  | .record_parent_kyb id ref key => (record_parent_kyb H id ref key p).toOption.getD p
  | .create_challenge id => (create_challenge H id p).toOption.getD p
  | .verify_challenge req => (verify_challenge H decode_credential_jwt req p).toOption.getD p
  | .tick d => { p with world := p.world.tick d }

/-- A run of operations. -/
def run (p : Platform) (ops : List Operation) : Platform := ops.foldl (step H decode_credential_jwt) p

theorem run_append (p : Platform) (xs ys : List Operation) :
    run H decode_credential_jwt p (xs ++ ys) =
      run H decode_credential_jwt (run H decode_credential_jwt p xs) ys := List.foldl_append

variable {H decode_credential_jwt}

/-- An invariant of a run, under a condition on each operation and the platform it starts from. -/
theorem run_invariant {I : Platform → Prop} {ok : Platform → Operation → Prop}
    (hstep : ∀ p op, I p → ok p op → I (step H decode_credential_jwt p op)) :
    ∀ (ops : List Operation) (p : Platform), I p → (∀ pre op post, ops = pre ++ op :: post →
      ok (run H decode_credential_jwt p pre) op) → I (run H decode_credential_jwt p ops) := by
  intro ops
  induction ops with
  | nil => intro p hp _; exact hp
  | cons op ops ih =>
    intro p hp hok
    refine ih _ (hstep p op hp (hok [] op ops rfl)) fun pre op' post h => ?_
    exact hok (op :: pre) op' post (by rw [h, List.cons_append])

/-! ## What the added routes change -/

/-- What every one of them leaves as it was: all tables but the parents and the trail. -/
structure Aside (db db' : DB) : Prop where
  agents : db'.agents = db.agents
  delegations : db'.delegations = db.delegations
  revocations : db'.revocations = db.revocations
  credentials : db'.credentials = db.credentials
  mandates : db'.mandates = db.mandates
  intents : db'.intents = db.intents
  challenges : db'.challenges = db.challenges
  authorizations : db'.authorizations = db.authorizations
  txns : db'.txns = db.txns

theorem Aside.keys {db db' : DB} (h : Aside db db') (hk : db.Keys) : db'.Keys := by
  refine ⟨?_, ?_, ?_, ?_, ?_⟩
  · rw [h.agents]; exact hk.agents
  · rw [h.agents]; exact hk.agent_pks
  · rw [h.intents]; exact hk.intents
  · rw [h.intents]; exact hk.slots
  · rw [h.authorizations]; exact hk.authorizations

/-- What an added route does to the core: it lets every table alone but the parents and
the trail, and of a parent it changes the organization or the tier. -/
structure Steady (p p' : Platform) : Prop where
  aside : Aside p.world.db p'.world.db
  reserved : p'.world.reserved = p.world.reserved
  parents : ∃ sel f, (∀ q : ParentAuthority, (f q).id = q.id ∧ (f q).status = q.status) ∧
    p'.world.db.parents = updateWhere sel f p.world.db.parents

theorem updateWhere_none {α : Type} (f : α → α) (rows : List α) :
    updateWhere (fun _ => false) f rows = rows := List.map_id rows

/-- The parents as they were. -/
theorem Steady.of_parents {p p' : Platform} (haside : Aside p.world.db p'.world.db)
    (hreserved : p'.world.reserved = p.world.reserved)
    (hparents : p'.world.db.parents = p.world.db.parents) : Steady p p' :=
  ⟨haside, hreserved, fun _ => false, id, fun _ => ⟨rfl, rfl⟩, hparents.trans (updateWhere_none _ _).symm⟩

theorem Aside.refl (db : DB) : Aside db db := ⟨rfl, rfl, rfl, rfl, rfl, rfl, rfl, rfl, rfl⟩

theorem Steady.refl (p : Platform) : Steady p p := .of_parents (.refl _) rfl rfl

/-- A refused operation changes nothing. -/
theorem steady_of_ok {p : Platform} {r : Except Reply Platform}
    (h : ∀ p', r = .ok p' → Steady p p') : Steady p (r.toOption.getD p) := by
  cases r with
  | error e => exact .refl p
  | ok p' => exact h p' rfl

/-- The checks of `create_org`. -/
structure Founds (H : Host) (p : Platform) (req : CreateOrgRequest) (key : String) : Prop where
  admin : H.require_admin_org key "" = .ok ()
  names : ¬ (req.org_id = "" ∨ req.name = "")
  fresh : ∀ o ∈ p.organizations, o.org_id ≠ req.org_id

/-- The optional id names a parent. -/
def Names (db : DB) (id : Option String) (q : ParentAuthority) : Prop :=
  ∃ name, id.filter (· ≠ "") = some name ∧ (db.parents.find? fun q => q.parent_id == name) = some q

theorem create_org_ok {req : CreateOrgRequest} {key : String} {p p' : Platform}
    (h : create_org H req key p = .ok p') :
    Founds H p req key ∧ moved p.world.db req.parent_id req.org_id = some p'.world.db.parents ∧
      Aside p.world.db p'.world.db ∧ p'.world.reserved = p.world.reserved ∧ p'.nonces = p.nonces := by
  unfold create_org at h
  cases hadmin : H.require_admin_org key "" with
  | error e =>
    rw [hadmin] at h
    exact absurd h (by simp [bind, Except.bind])
  | ok u =>
    rw [hadmin] at h
    simp only [bind, Except.bind] at h
    split at h
    · exact absurd h (by simp)
    next hnames =>
    split at h
    · exact absurd h (by simp)
    next hnew =>
    split at h
    · exact absurd h (by simp)
    next parents hmoved =>
    obtain rfl := Except.ok.inj h
    exact ⟨⟨hadmin, hnames, by simpa using hnew⟩, hmoved,
      ⟨rfl, rfl, rfl, rfl, rfl, rfl, rfl, rfl, rfl⟩, rfl, rfl⟩

theorem moved_eq {db : DB} {id : Option String} {org : String} {parents : List ParentAuthority}
    (h : moved db id org = some parents) : parents = db.parents ∨
      ∃ q, Names db id q ∧ parents = updateWhere (fun r => r.id == q.id)
        (fun r => { r with org_id := org }) db.parents := by
  unfold moved at h
  split at h
  · exact .inl (Option.some.inj h).symm
  next name hname =>
  obtain ⟨q, hq, rfl⟩ := Option.map_eq_some_iff.mp h
  exact .inr ⟨q, ⟨name, hname, hq⟩, rfl⟩

theorem create_org_steady {req : CreateOrgRequest} {key : String} {p p' : Platform}
    (h : create_org H req key p = .ok p') : Steady p p' := by
  obtain ⟨-, hmoved, haside, hreserved, -⟩ := create_org_ok h
  rcases moved_eq hmoved with heq | ⟨q, -, heq⟩
  · exact .of_parents haside hreserved heq
  · refine ⟨haside, hreserved, _, _, ?_, heq⟩
    exact fun _ => ⟨rfl, rfl⟩

theorem record_parent_kyb_ok {id ref key : String} {p p' : Platform}
    (h : record_parent_kyb H id ref key p = .ok p') :
    Aside p.world.db p'.world.db ∧ p'.world.reserved = p.world.reserved ∧ p'.nonces = p.nonces ∧
      ∃ sel, p'.world.db.parents =
        updateWhere sel (fun q => { q with trust_tier := "kyb_verified" }) p.world.db.parents := by
  unfold record_parent_kyb at h
  split at h
  · exact absurd h (by simp)
  next parent _ =>
  cases hadmin : H.require_admin_org key parent.org_id with
  | error e =>
    rw [hadmin] at h
    exact absurd h (by simp [bind, Except.bind])
  | ok u =>
    rw [hadmin] at h
    obtain rfl := Except.ok.inj h
    exact ⟨⟨rfl, rfl, rfl, rfl, rfl, rfl, rfl, rfl, rfl⟩, rfl, rfl, _, rfl⟩

theorem record_parent_kyb_steady {id ref key : String} {p p' : Platform}
    (h : record_parent_kyb H id ref key p = .ok p') : Steady p p' := by
  obtain ⟨haside, hreserved, -, sel, heq⟩ := record_parent_kyb_ok h
  refine ⟨haside, hreserved, _, _, ?_, heq⟩
  exact fun _ => ⟨rfl, rfl⟩

theorem create_challenge_ok {id : String} {p p' : Platform}
    (h : create_challenge H id p = .ok p') :
    ∃ a n, (p.world.db.agents.find? fun a => a.agent_id == id).filter (fun a => a.status = .active) =
        some a ∧ n.agent_id = a.agent_id ∧ n.org_id = "default" ∧ p'.nonces = p.nonces ++ [n] ∧
      p'.world.db = p.world.db ∧ p'.world.reserved = p.world.reserved := by
  unfold create_challenge at h
  split at h
  · exact absurd h (by simp)
  next agent hagent =>
  dsimp only at h
  split at h
  · exact absurd h (by simp)
  next nonces hnonces =>
  obtain ⟨rfl, -⟩ := insertUnique_eq hnonces
  obtain rfl := Except.ok.inj h
  exact ⟨agent, _, hagent, rfl, rfl, rfl, rfl, rfl⟩

theorem verify_challenge_ok {req : VerifyRequest} {p p' : Platform}
    (h : verify_challenge H decode_credential_jwt req p = .ok p') :
    Aside p.world.db p'.world.db ∧ p'.world.reserved = p.world.reserved ∧
      p'.world.db.parents = p.world.db.parents ∧
      ∃ sel, p'.nonces = updateWhere sel (fun n => { n with used := true }) p.nonces := by
  unfold verify_challenge at h
  dsimp only at h
  repeat' split at h
  all_goals cases h
  exact ⟨⟨rfl, rfl, rfl, rfl, rfl, rfl, rfl, rfl, rfl⟩, rfl, rfl, _, rfl⟩

/-- **The added routes leave the core alone.** -/
theorem step_steady (p : Platform) {op : Operation} (hop : ∀ r answers, op ≠ .serve r answers) :
    Steady p (step H decode_credential_jwt p op) := by
  cases op with
  | serve r answers => exact absurd rfl (hop r answers)
  | create_org req key => exact steady_of_ok fun p' h => create_org_steady h
  | record_parent_kyb id ref key => exact steady_of_ok fun p' h => record_parent_kyb_steady h
  | create_challenge id =>
    refine steady_of_ok fun p' h => ?_
    obtain ⟨_, _, -, -, -, -, hdb, hreserved⟩ := create_challenge_ok h
    exact .of_parents (hdb ▸ .refl _) hreserved (by rw [hdb])
  | verify_challenge req =>
    refine steady_of_ok fun p' h => ?_
    obtain ⟨haside, hreserved, hparents, -⟩ := verify_challenge_ok h
    exact .of_parents haside hreserved hparents
  | tick d => exact .of_parents (.refl _) rfl rfl

theorem Steady.orderly {p p' : Platform} (h : Steady p p') (hp : p.world.Orderly) :
    p'.world.Orderly where
  keys := h.aside.keys hp.keys
  single := by
    rw [h.aside.authorizations]
    exact hp.single
  idle := h.reserved.trans hp.idle

theorem step_orderly {p : Platform} (hp : p.world.Orderly) (op : Operation) :
    (step H decode_credential_jwt p op).world.Orderly := by
  cases op with
  | serve r answers => exact Server.serve_orderly hp r answers
  | _ => exact (step_steady p (by simp)).orderly hp

theorem run_orderly {p : Platform} (hp : p.world.Orderly) (ops : List Operation) :
    (run H decode_credential_jwt p ops).world.Orderly :=
  @run_invariant H decode_credential_jwt (fun p => p.world.Orderly) (fun _ _ => True)
    (fun _ op hp _ => step_orderly hp op) ops p hp fun _ _ _ _ => trivial

end Platform

end Paari
