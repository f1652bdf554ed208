import Paari.Revocation

/-!
# What one signed delegation authorizes

A parent signs the same eight members whether it means to register an agent or to give an
existing one a new key, and names no agent. Registration (in two versions) and key
rotation each check a part of the document; a fresh document that passes both can be used
for either, and for any agent of the parent, as long as it was not consumed.
`delegation_selects` says exactly when a document leaves no choice.
-/

namespace Paari

open Atomic
open Host (SECOND DAY CLOCK_SKEW_LEEWAY_SECONDS)

variable {H : Host} {w : World} {i : Nat} {p : ParentAuthority} {d : Json} {signature pem : String}

/-! ## Being accepted -/

/-- A registration request with the document `d` as its authority goes through: as a typed
document, or inside an authentic protocol 1.0 envelope. -/
def Registers (H : Host) (i : Nat) (w : World) (d : Json) (signature pem : String) : Prop :=
  (∃ doc : DelegationDocument, doc.json.Same d ∧ ∃ name credential,
    (Server.serve H (.register_agent ⟨pem, doc, signature⟩) [] w i).value =
      some (.registered name credential)) ∨
  (∃ envelope payload, checkEnvelope H envelope w.clock = .ok (some (pem, payload)) ∧
    payload.get "delegation" = .ok d ∧
    payload.getD "delegation_signature_b64" (.str "") = .ok (.str signature) ∧ ∃ name credential,
    (Server.serve H (.v1_register_agent envelope) [] w i).value = some (.registered name credential))

/-- A rotation of the agent's key with the document `d` as its authority goes through. -/
def Rotates (H : Host) (i : Nat) (w : World) (d : Json) (signature pem agent_id : String) : Prop :=
  ∃ x_admin_api_key name credential,
    (Server.serve H (.rotate_agent_key agent_id ⟨pem, d, signature⟩ x_admin_api_key) [] w i).value =
      some (.rotated name credential)

/-- The document is good for one thing at most: registering, or the key of one agent of
the parent. -/
def SelectsOne (H : Host) (i : Nat) (w : World) (p : ParentAuthority) (d : Json)
    (signature pem : String) : Prop :=
  ∀ a ∈ w.db.agents, a.parent_pk = p.id → Rotates H i w d signature pem a.agent_id →
    ¬ Registers H i w d signature pem ∧
      ∀ b ∈ w.db.agents, b.parent_pk = p.id → Rotates H i w d signature pem b.agent_id → a = b

/-! ## What the document must be -/

/-- The document is fresh, unused, the parent's own and for this key: all that rotation
asks of it whatever the agent. -/
structure FitForRotation (H : Host) (w : World) (p : ParentAuthority) (d : Json) (pem : String)
    (issued expires : Instant) : Prop where
  active : p.status = .active
  truthy : d.truthy = true
  times : rotationTimes H d = .ok (issued, expires)
  recent : ¬ (issued > w.clock + CLOCK_SKEW_LEEWAY_SECONDS * SECOND ∨
    (Host.timestamp w.clock - Host.timestamp issued).natAbs > 5 * 60)
  parent : ((d.get "parent_id").toOption.any fun v => v.isStr p.parent_id) = true
  live : ¬ expires ≤ w.clock
  key : ((d.get "agent_public_key_fingerprint").toOption.any fun f =>
    f.isStr (H.public_key_fingerprint pem)) = true
  unused : (w.db.delegations.any fun r =>
    (d.get "delegation_id").toOption.any fun id => id.isStr r.delegation_id) = false

/-- The agent is active, and what the document sets fits its columns. -/
structure Rotatable (w : World) (p : ParentAuthority) (d : Json) (pem : String) (expires : Instant)
    (a : Agent) : Prop where
  row : a ∈ w.db.agents
  own : a.parent_pk = p.id
  active : a.status = .active
  fits : (rotationOf a d pem w.clock expires).isSome = true

/-- What protocol 1.0 asks of a document beyond `FitForRotation`: no member is missing, it
runs for a year at most, grants something and has a positive limit. -/
structure FitForV1 (H : Host) (d : Json) (issued expires : Instant) : Prop where
  members : ∃ keys, iterKeys d = .ok keys ∧ (V1_REQUIRED.all fun k => keys.contains k) = true
  lifetime : ¬ expires - issued > 366 * DAY
  fields : ∃ v, readV1Delegation H d issued expires = some (.ok v)

/-- What registering asks of a document beyond `FitForRotation`: to be a typed document
(eight members of the declared types), or to come in an envelope the key itself signed. -/
def FitForRegistration (H : Host) (w : World) (d : Json) (signature pem : String)
    (issued expires : Instant) : Prop :=
  (∃ doc : DelegationDocument, doc.json.Same d) ∨
  (∃ envelope payload, checkEnvelope H envelope w.clock = .ok (some (pem, payload)) ∧
    payload.get "delegation" = .ok d ∧
    payload.getD "delegation_signature_b64" (.str "") = .ok (.str signature) ∧
    FitForV1 H d issued expires)

/-- The identifiers still to be drawn are on no agent and no credential. -/
structure World.Supply (H : Host) (w : World) : Prop where
  agents : ∀ n, w.next ≤ n → ∀ a ∈ w.db.agents, a.id ≠ n ∧ a.agent_id ≠ H.uuid4 n
  credentials : ∀ n, w.next ≤ n → ∀ c ∈ w.db.credentials, c.credential_id ≠ H.uuid4 n

/-- The parent signed the document, and both its keys name it. -/
structure Signs (H : Host) (db : DB) (p : ParentAuthority) (d : Json) (signature : String) : Prop where
  byId : ∀ q ∈ db.parents, q.id = p.id → q = p
  byName : ∀ q ∈ db.parents, q.parent_id = p.parent_id → q = p
  row : p ∈ db.parents
  signed : H.verify_signature p.public_key_pem (H.canonical_json d) signature = some true

theorem Signs.find {db : DB} (h : Signs H db p d signature) {f : ParentAuthority → Bool}
    (hf : f p = true) (honly : ∀ q ∈ db.parents, f q = true → q = p) : db.parents.find? f = some p := by
  cases hfind : db.parents.find? f with
  | none => exact absurd hf (by simpa using List.find?_eq_none.mp hfind p h.row)
  | some q => rw [honly q (List.mem_of_find?_eq_some hfind) (by simpa using List.find?_some hfind)]

/-! ## Rotation -/

theorem not_rotated (x : HttpError) :
    ¬ ∃ name credential, some (Reply.error x) = some (.rotated name credential) :=
  fun ⟨_, _, h⟩ => absurd h (by simp)

/-- A transaction commits where each of its writes finds a database that takes it. -/
theorem accepts_cons {db db' : DB} {x : Write} {ws : List Write} (hx : db.apply x = some db')
    (h : ∃ db'', db'.applyAll ws = .ok db'') : ∃ db'', db.applyAll (x :: ws) = .ok db'' := by
  obtain ⟨db'', h⟩ := h
  refine ⟨db'', ?_⟩
  unfold DB.applyAll
  rw [hx]
  exact h

/-- Writes that every database with `K` takes, `K` kept, before the rest. -/
theorem accepts_append {K : DB → Prop} {ws : List Write} :
    ∀ {xs : List Write} {db : DB}, (∀ x ∈ xs, ∀ db, K db → ∃ db', db.apply x = some db' ∧ K db') →
      (∀ db', K db' → ∃ db'', db'.applyAll ws = .ok db'') → K db →
      ∃ db'', db.applyAll (xs ++ ws) = .ok db''
  | [], db, _, hws, hk => hws db hk
  | x :: xs, db, hxs, hws, hk => by
    obtain ⟨db', hx, hk'⟩ := hxs x List.mem_cons_self db hk
    exact accepts_cons hx (accepts_append (fun y hy => hxs y (List.mem_cons_of_mem _ hy)) hws hk')

theorem accepts_delegation {db : DB} {r : DelegationRecord}
    (hunused : ∀ x ∈ db.delegations, x.delegation_id ≠ r.delegation_id) :
    db.apply (.insertDelegation r) = some { db with delegations := db.delegations ++ [r] } := by
  have hany : db.delegations.any (fun x => x.delegation_id == r.delegation_id) = false := by
    rw [List.any_eq_false]
    exact fun x hx => by simpa using hunused x hx
  simp [DB.apply, insertUnique, hany]

theorem accepts_agent {db : DB} {r : Agent}
    (hunused : ∀ x ∈ db.agents, x.id ≠ r.id ∧ x.agent_id ≠ r.agent_id) :
    db.apply (.insertAgent r) = some { db with agents := db.agents ++ [r] } := by
  have hany : db.agents.any (fun x => x.id == r.id || x.agent_id == r.agent_id) = false := by
    rw [List.any_eq_false]
    exact fun x hx => by simpa using hunused x hx
  simp [DB.apply, insertUnique, hany]

theorem accepts_credential {db : DB} {r : Credential}
    (hunused : ∀ x ∈ db.credentials, x.credential_id ≠ r.credential_id) :
    db.apply (.insertCredential r) = some { db with credentials := db.credentials ++ [r] } := by
  have hany : db.credentials.any (fun x => x.credential_id == r.credential_id) = false := by
    rw [List.any_eq_false]
    exact fun x hx => by simpa using hunused x hx
  simp [DB.apply, insertUnique, hany]

/-- A commit that the database takes. -/
theorem wp_commit_ok {α : Type} {ws : List Write} {k : Unit → Handler α}
    {calls : List (Call × Option Answer)} {Q : World → List (Call × Option Answer) → Option α → Prop}
    (hok : ∃ db', w.db.applyAll ws = .ok db')
    (hdone : ∀ db', w.db.applyAll ws = .ok db' →
      (k ()).Wp (World.exec i) Q calls ({ w with db := db' }.release i)) :
    (Handler.commit ws >>= k).Wp (World.exec i) Q calls w := by
  obtain ⟨db', hdb'⟩ := hok
  exact wp_commit (fun x hx => absurd (hx.symm.trans hdb') (by simp)) hdone

/-- Audit events are always taken. -/
theorem accepts_audits {db : DB} {s : Session} (hs : ∀ x ∈ s, ∃ e, x = .insertAudit e) :
    ∃ db', db.applyAll s = .ok db' := by
  rw [← List.append_nil s]
  refine accepts_append (K := fun _ => True) (fun x hx db _ => ?_) (fun db' _ => ⟨db', rfl⟩) trivial
  obtain ⟨e, rfl⟩ := hs x hx
  exact ⟨_, rfl, trivial⟩

/-- A rotation commits: the document's id is unused and the new credential's is fresh. -/
theorem apply_rotation_rotates (hs : w.Supply H) {a : Agent} {issued : Instant} {r : Rotation}
    (hunused : ∀ x ∈ w.db.delegations, x.delegation_id ≠ r.delegation_id) :
    (apply_rotation H a p issued r).Wp (World.exec i)
      (fun _ _ res => ∃ name credential, res = some (.rotated name credential)) [] w := by
  refine Prog.wp_bind (wp_fresh (wp_now (wp_now ?_)))
  rw [Prog.pure_eq, Prog.wp_ret]
  refine wp_query (wp_record_audit (wp_commit_ok ?_ fun db' _ => ⟨_, _, rfl⟩))
  rw [List.append_assoc, List.append_assoc, List.cons_append, List.cons_append, List.nil_append]
  refine accepts_cons (accepts_delegation hunused) (accepts_cons rfl ?_)
  -- superseding old credentials keeps their ids
  refine accepts_append (K := fun db => ∀ c ∈ db.credentials, c.credential_id ≠ H.uuid4 w.next)
    (fun x hx db hk => ?_) (fun db hk => ?_) (hs.credentials w.next (Nat.le_refl _))
  · obtain ⟨c, -, rfl⟩ := List.mem_map.mp hx
    refine ⟨_, rfl, fun c' hc' => ?_⟩
    obtain ⟨b, hb, rfl⟩ := mem_updateWhere.mp hc'
    split <;> exact hk b hb
  · exact accepts_cons (accepts_credential hk) (accepts_audits fun x hx => ⟨_, List.mem_singleton.mp hx⟩)

/-- Who may use the route: no admin key, or one that reaches the organization. -/
def admits (H : Host) (x_admin_api_key org_id : String) : Except Reply Unit :=
  if H.is_admin_key x_admin_api_key then H.require_admin_org x_admin_api_key org_id else .ok ()

theorem admits_error {key org : String} {e : Reply} (h : admits H key org = .error e) :
    e.IsError := by
  unfold admits at h
  split at h
  · unfold Host.require_admin_org at h
    split at h
    · exact ⟨_, (Except.error.inj h).symm⟩
    · split at h
      · exact ⟨_, (Except.error.inj h).symm⟩
      · exact absurd h (by simp)
  · exact absurd h (by simp)

/-- The rotation stores the document's own id. -/
theorem rotationOf_id {a : Agent} {now expires : Instant} {r : Rotation}
    (h : rotationOf a d pem now expires = some r) :
    d.get "delegation_id" = .ok (.str r.delegation_id) := by
  unfold rotationOf at h
  simp only [Option.bind_eq_bind, Option.bind_eq_some_iff, Option.pure_def] at h
  obtain ⟨id, hid, _, _, _, _, _, _, _, _, s, hs, _, _, _, _, heq⟩ := h
  obtain rfl := Option.some.inj heq
  cases d with
  | dict kvs =>
    unfold Json.item at hid
    dsimp only at hid
    split at hid
    · next v hv =>
      obtain rfl := Option.some.inj hid
      cases v with
      | str t =>
        obtain rfl := Option.some.inj hs
        show Except.ok ((kvs.lookup "delegation_id").getD .null) = _
        rw [hv]
        rfl
      | _ => exact absurd hs (by simp [Json.asStr?])
    · exact absurd hid (by simp [Except.toOption])
  | _ => exact absurd hid (by simp [Json.item, Except.toOption])

/-- **The key of an agent can be replaced** exactly when the document is fit and the agent
is active, with columns the document fits. -/
theorem rotate_agent_key_accepts (hs : w.Supply H) (hsigns : Signs H w.db p d signature) {a : Agent}
    (hrow : a ∈ w.db.agents) (honly : ∀ b ∈ w.db.agents, b.agent_id = a.agent_id → b = a)
    (hown : a.parent_pk = p.id) (key : String) :
    (rotate_agent_key H a.agent_id ⟨pem, d, signature⟩ key).Wp (World.exec i)
      (fun _ _ res => (∃ name credential, res = some (.rotated name credential)) ↔
        admits H key p.org_id = .ok () ∧ ∃ issued expires,
          FitForRotation H w p d pem issued expires ∧ Rotatable w p d pem expires a) [] w := by
  have hfound : w.db.agents.find? (fun b => b.agent_id == a.agent_id) = some a := by
    cases hfind : w.db.agents.find? (fun b => b.agent_id == a.agent_id) with
    | none => exact absurd (List.find?_eq_none.mp hfind a hrow) (by simp)
    | some b =>
      rw [honly b (List.mem_of_find?_eq_some hfind) (by simpa using List.find?_some hfind)]
  have hpfind : parent_for w.db a = some p :=
    hsigns.find (by simp [hown]) fun q hq h => hsigns.byId q hq (by simpa [hown] using h)
  refine wp_query ?_
  rw [hfound]
  split
  · next hnone =>
    refine ⟨fun h => absurd h (not_rotated _), fun ⟨_, _, _, _, hr⟩ => ?_⟩
    exact absurd hnone (by simp [hr.active])
  next agent hagent =>
  obtain ⟨heq, hactive⟩ := Option.filter_eq_some_iff.mp hagent
  obtain rfl := Option.some.inj heq
  have hactive : a.status = .active := by simpa using hactive
  refine wp_query ?_
  rw [hpfind]
  split
  · next hnone =>
    refine ⟨fun h => absurd h (not_rotated _), fun ⟨_, _, _, hf, _⟩ => ?_⟩
    exact absurd hnone (by simp [hf.active])
  next parent hparent =>
  obtain ⟨heq, hpactive⟩ := Option.filter_eq_some_iff.mp hparent
  obtain rfl := Option.some.inj heq
  have hpactive : p.status = .active := by simpa using hpactive
  show (Handler.attempt (pure (admits H key p.org_id)) _).Wp _ _ _ _
  cases hadmits : admits H key p.org_id with
  | error e =>
    obtain ⟨x, rfl⟩ := admits_error hadmits
    exact ⟨fun h => absurd h (not_rotated _), fun ⟨hok, _⟩ => absurd hok (by simp)⟩
  | ok u =>
  rw [show (Except.ok u : Except Reply Unit) = .ok () from rfl]
  have hrefuse : ∀ x : HttpError, (∀ issued expires, FitForRotation H w p d pem issued expires →
      ¬ Rotatable w p d pem expires a) →
      ((∃ name credential, some (Reply.error x) = some (.rotated name credential)) ↔
        (Except.ok () : Except Reply Unit) = .ok () ∧ ∃ issued expires,
          FitForRotation H w p d pem issued expires ∧ Rotatable w p d pem expires a) :=
    fun x hno => ⟨fun h => absurd h (not_rotated _), fun ⟨_, issued, expires, hf, hr⟩ =>
      absurd hr (hno issued expires hf)⟩
  refine (?_ : Prog.Wp _ _ _ _ _)
  dsimp only
  split
  · next htruthy => exact hrefuse _ fun _ _ hf => absurd hf.truthy (by simpa using htruthy)
  next htruthy =>
  rw [hsigns.signed]
  refine wp_now ?_
  split
  · next reply hreply =>
    obtain ⟨x, rfl⟩ := rotationTimes_error hreply
    exact hrefuse _ fun _ _ hf => absurd (hf.times.symm.trans hreply) (by simp)
  next issued expires htimes =>
  have htimes' : ∀ {issued' expires'}, FitForRotation H w p d pem issued' expires' →
      issued' = issued ∧ expires' = expires := fun hf =>
    Prod.mk.inj (Except.ok.inj (hf.times.symm.trans htimes))
  split
  · next hrecent =>
    refine hrefuse _ fun _ _ hf => ?_
    obtain ⟨rfl, rfl⟩ := htimes' hf
    exact absurd hrecent hf.recent
  next hrecent =>
  split
  · next hparent => exact hrefuse _ fun _ _ hf => absurd hf.parent (by simpa using hparent)
  next hparent =>
  split
  · next hlive =>
    refine hrefuse _ fun _ _ hf => ?_
    obtain ⟨rfl, rfl⟩ := htimes' hf
    exact absurd hlive hf.live
  next hlive =>
  split
  · next hkey => exact hrefuse _ fun _ _ hf => absurd hf.key (by simpa using hkey)
  next hkey =>
  refine wp_query ?_
  split
  · next hseen => exact hrefuse _ fun _ _ hf => absurd (hseen.symm.trans hf.unused) (by decide)
  next hseen =>
  have hfit : FitForRotation H w p d pem issued expires :=
    ⟨hpactive, by simpa using htruthy, htimes, hrecent, by simpa using hparent, hlive,
      by simpa using hkey, by simpa using hseen⟩
  split
  · next hnone =>
    refine ⟨fun ⟨_, _, h⟩ => absurd h (by simp), fun ⟨_, issued', expires', hf, hr⟩ => ?_⟩
    obtain ⟨rfl, rfl⟩ := htimes' hf
    exact absurd hr.fits (by simp [hnone])
  next r hr =>
  refine Prog.wp_mono (fun _ _ _ hres => ?_) (apply_rotation_rotates hs fun x hx hid => ?_)
  · exact ⟨fun _ => ⟨rfl, issued, expires, hfit, hrow, hown, hactive, by simp [hr]⟩, fun _ => hres⟩
  · have hany := List.any_eq_false.mp (by simpa using hseen) x hx
    rw [rotationOf_id hr] at hany
    exact hany (by simp [Except.toOption, Json.isStr, hid])

/-! ## Registration -/

/-- The credential row's wp: one draw, two looks at the clock. -/
theorem issueCredential_wp {α : Type} {agent_pk : Nat} {org_id : String} {expires : Instant}
    {k : Credential → Handler α} {calls : List (Call × Option Answer)}
    {Q : World → List (Call × Option Answer) → Option α → Prop}
    (hk : ∀ c : Credential, c.credential_id = H.uuid4 w.next →
      (k c).Wp (World.exec i) Q calls { w with next := w.next + 1 }) :
    (issueCredential H agent_pk org_id expires >>= k).Wp (World.exec i) Q calls w :=
  Prog.wp_bind (wp_fresh (wp_now (wp_now (hk _ rfl))))

theorem registrationAudits_wp {α : Type} {s : Session} {a : Agent} {credential_id : String}
    {protocol : List (String × Json)} {org_id : Option String} {k : Session → Handler α}
    {calls : List (Call × Option Answer)} {Q : World → List (Call × Option Answer) → Option α → Prop}
    (hk : ∀ e e', (k (s ++ [.insertAudit e, .insertAudit e'])).Wp (World.exec i) Q calls w) :
    (registrationAudits H s a p credential_id protocol org_id >>= k).Wp (World.exec i) Q calls w := by
  refine Prog.wp_bind (wp_record_audit ?_)
  show (k (s ++ [_] ++ [_])).Wp _ _ _ _
  rw [List.append_assoc]
  exact hk _ _

/-- A member that is a given string. -/
theorem get_isStr {kvs : List (String × Json)} {k s : String}
    (h : (((Json.dict kvs).get k).toOption.any fun v => v.isStr s) = true) :
    kvs.lookup k = some (.str s) := by
  simp only [Json.get, Json.getD, Except.toOption, Option.any_some] at h
  cases hv : kvs.lookup k with
  | none => rw [hv] at h; exact absurd h (by simp [Json.isStr])
  | some v =>
    rw [hv] at h
    cases v with
    | str t => rw [show t = s by simpa [Json.isStr] using h]
    | _ => exact absurd h (by simp [Json.isStr])

/-- What has a parent is an object. -/
theorem FitForRotation.object {issued expires : Instant}
    (hf : FitForRotation H w p d pem issued expires) : ∃ kvs, d = .dict kvs := by
  cases d with
  | dict kvs => exact ⟨kvs, rfl⟩
  | _ => exact absurd hf.parent (by simp [Json.get, Json.getD, Except.toOption])

/-- The two timestamps, from an object. -/
theorem rotationTimes_dict {kvs : List (String × Json)} {issued expires : Instant}
    (h : rotationTimes H (.dict kvs) = .ok (issued, expires)) :
    delegationTimes H (.dict kvs) = .ok (some (issued, expires)) ∧
    (∀ n, kvs.lookup "issued_at" = some (.int n) → Host.fromtimestamp n = .ok issued) ∧
    (∀ n, kvs.lookup "expires_at" = some (.int n) → Host.fromtimestamp n = .ok expires) := by
  unfold rotationTimes at h
  unfold delegationTimes
  extract_lets times at h
  have htimes : times = .ok (issued, expires) := by
    clear_value times
    split at h
    · exact congrArg _ (Except.ok.inj h)
    · exact absurd h (by simp)
    · exact absurd h (by simp)
  refine ⟨?_, fun n hn => ?_, fun n hn => ?_⟩
  · extract_lets times'
    rw [show times' = .ok (issued, expires) from htimes]
  · simp only [times, Json.item, hn, bind, Except.bind, pyInt] at htimes
    cases ht : Host.fromtimestamp n with
    | error e => rw [ht] at htimes; exact absurd htimes (by simp)
    | ok t =>
      rw [ht] at htimes
      dsimp only at htimes
      repeat' split at htimes
      all_goals first
        | exact absurd htimes (by simp)
        | exact congrArg _ (Prod.mk.inj (Except.ok.inj htimes)).1
  · simp only [times, Json.item, hn, bind, Except.bind, pyInt] at htimes
    cases ht : Host.fromtimestamp n with
    | error e =>
      rw [ht] at htimes
      dsimp only at htimes
      repeat' split at htimes
      all_goals exact absurd htimes (by simp)
    | ok t =>
      rw [ht] at htimes
      dsimp only at htimes
      repeat' split at htimes
      all_goals first
        | exact absurd htimes (by simp)
        | exact congrArg _ (Prod.mk.inj (Except.ok.inj htimes)).2

/-- A typed document is the same as `d`: its members are `d`'s. -/
theorem typed_members {doc : DelegationDocument} {kvs : List (String × Json)}
    (h : doc.json.Same (.dict kvs)) : kvs.lookup "delegation_id" = some (.str doc.delegation_id) ∧
      kvs.lookup "parent_id" = some (.str doc.parent_id) ∧
      kvs.lookup "agent_public_key_fingerprint" = some (.str doc.agent_public_key_fingerprint) ∧
      kvs.lookup "issued_at" = some (.int doc.issued_at) ∧
      kvs.lookup "expires_at" = some (.int doc.expires_at) := by
  have hkeys : (([("delegation_id", .str doc.delegation_id), ("parent_id", .str doc.parent_id),
    ("agent_public_key_fingerprint", .str doc.agent_public_key_fingerprint),
    ("granted_capabilities", jsonStrings doc.granted_capabilities),
    ("payment_limit_minor_units", .int doc.payment_limit_minor_units),
    ("currency", .str doc.currency), ("issued_at", .int doc.issued_at),
    ("expires_at", .int doc.expires_at)] : List (String × Json)).map Prod.fst).Nodup := by simp
  have hlookup := h.lookup hkeys (h.nodup hkeys)
  have hstr : ∀ {k s}, (kvs.lookup k).map Json.tree = some (Json.str s).tree → kvs.lookup k = some (.str s) := by
    intro k s hk
    obtain ⟨v, hv, htree⟩ := Option.map_eq_some_iff.mp hk
    rw [hv, tree_eq_str htree]
  have hint : ∀ {k n}, (kvs.lookup k).map Json.tree = some (Json.int n).tree → kvs.lookup k = some (.int n) := by
    intro k n hk
    obtain ⟨v, hv, htree⟩ := Option.map_eq_some_iff.mp hk
    rw [hv, tree_eq_int htree]
  exact ⟨hstr (hlookup "delegation_id").symm, hstr (hlookup "parent_id").symm,
    hstr (hlookup "agent_public_key_fingerprint").symm, hint (hlookup "issued_at").symm,
    hint (hlookup "expires_at").symm⟩

/-- A typed document that is fit for rotation registers an agent. -/
theorem register_agent_accepts (hs : w.Supply H) (hsigns : Signs H w.db p d signature)
    {issued expires : Instant} (hf : FitForRotation H w p d pem issued expires)
    {doc : DelegationDocument} (hdoc : doc.json.Same d) :
    (register_agent H ⟨pem, doc, signature⟩).Wp (World.exec i)
      (fun _ _ res => ∃ name credential, res = some (.registered name credential)) [] w := by
  obtain ⟨kvs, rfl⟩ := hf.object
  obtain ⟨hid, hpid, hkey, hissued, hexpires⟩ := typed_members hdoc
  obtain ⟨-, htissued, htexpires⟩ := rotationTimes_dict hf.times
  have hparent : doc.parent_id = p.parent_id :=
    Json.str.inj (Option.some.inj (hpid.symm.trans (get_isStr hf.parent)))
  have hfingerprint : doc.agent_public_key_fingerprint = H.public_key_fingerprint pem :=
    Json.str.inj (Option.some.inj (hkey.symm.trans (get_isStr hf.key)))
  have hunused : ∀ r ∈ w.db.delegations, r.delegation_id ≠ doc.delegation_id := by
    intro r hr heq
    have hany := List.any_eq_false.mp hf.unused r hr
    exact hany (by simp [Json.get, Json.getD, Except.toOption, hid, Json.isStr, heq])
  have hsigned : H.verify_signature p.public_key_pem (H.canonical_json doc.json) signature = some true := by
    rw [← hsigns.signed]
    unfold Host.canonical_json canonical_json
    rw [show doc.json.tree = (Json.dict kvs).tree from hdoc]
  refine wp_query ?_
  rw [hsigns.find (f := fun q => q.parent_id == doc.parent_id) (by simp [hparent])
    fun q hq h => hsigns.byName q hq (by simpa [hparent] using h)]
  split
  · next hnone => exact absurd hnone (by simp [hf.active])
  next parent hp =>
  obtain rfl := Option.some.inj (Option.filter_eq_some_iff.mp hp).1
  rw [show trust_refusal p = none by simp [trust_refusal, hf.active]]
  dsimp only
  rw [hsigned]
  refine wp_now ?_
  rw [htexpires _ hexpires, htissued _ hissued]
  dsimp only
  rw [if_neg (fun hlt => hf.live (Int.le_of_lt hlt)), if_neg (fun hne => hne hfingerprint)]
  refine wp_query ?_
  rw [if_neg (by simpa using hunused)]
  refine wp_fresh (wp_fresh (wp_commit_ok ?_ fun db' hdb' => issueCredential_wp fun c hc =>
    wp_commit_ok ?_ fun db'' _ => registrationAudits_wp fun e e' => wp_commit_ok ?_ fun _ _ => ⟨_, _, rfl⟩))
  · refine accepts_cons (accepts_delegation hunused) (accepts_cons (accepts_agent fun a ha => ?_) ⟨_, rfl⟩)
    exact ⟨(hs.agents _ (Nat.le_refl _) a ha).1, (hs.agents _ (Nat.le_succ _) a ha).2⟩
  · refine accepts_cons (accepts_credential fun x hx => ?_) ⟨_, rfl⟩
    obtain ⟨mid, hmid, hdb'⟩ := applyAll_cons hdb'
    obtain ⟨last, hlast, hdb'⟩ := applyAll_cons hdb'
    obtain rfl := Except.ok.inj hdb'
    have hsame : last.credentials = w.db.credentials :=
      ((Frame.of_apply hlast).credentials nofun).trans ((Frame.of_apply hmid).credentials nofun)
    rw [hc]
    exact hs.credentials _ (Nat.le_trans (Nat.le_succ _) (Nat.le_succ _)) x (hsame ▸ hx)
  · exact accepts_audits fun x hx => by
      rcases List.mem_cons.mp hx with rfl | hx
      · exact ⟨_, rfl⟩
      · exact ⟨_, List.mem_singleton.mp hx⟩

theorem enrol_v1_registers (hs : w.Supply H) {v : V1Delegation}
    (hunused : ∀ r ∈ w.db.delegations, r.delegation_id ≠ v.delegation_id) :
    (enrol_v1 H p pem v).Wp (World.exec i)
      (fun _ _ res => ∃ name credential, res = some (.registered name credential)) [] w := by
  refine wp_fresh (wp_fresh (issueCredential_wp fun c hc => registrationAudits_wp fun e e' =>
    wp_commit_ok ?_ fun _ _ => ⟨_, _, rfl⟩))
  refine accepts_cons (accepts_delegation hunused) (accepts_cons (accepts_agent fun a ha => ?_)
    (accepts_cons (accepts_credential fun x hx => ?_) (accepts_audits fun x hx => ?_)))
  · exact ⟨(hs.agents _ (Nat.le_refl _) a ha).1, (hs.agents _ (Nat.le_succ _) a ha).2⟩
  · rw [hc]
    exact hs.credentials _ (Nat.le_trans (Nat.le_succ _) (Nat.le_succ _)) x hx
  · rcases List.mem_cons.mp hx with rfl | hx
    · exact ⟨_, rfl⟩
    · exact ⟨_, List.mem_singleton.mp hx⟩

/-- What is read is either refused with an error, or carries the document's id. -/
theorem readV1Delegation_cases {issued expires : Instant} {res : Except Reply V1Delegation}
    (h : readV1Delegation H d issued expires = some res) :
    (∃ x, res = .error (.error x)) ∨
      ∃ v, res = .ok v ∧ d.item "delegation_id" = .ok (.str v.delegation_id) := by
  unfold readV1Delegation at h
  simp only [Option.bind_eq_bind, Option.bind_eq_some_iff, Option.pure_def] at h
  obtain ⟨granted, -, capabilities, -, h⟩ := h
  split at h
  · exact .inl ⟨_, (Option.some.inj h).symm⟩
  obtain ⟨limit, -, h⟩ := Option.bind_eq_some_iff.mp h
  split at h
  · exact .inl ⟨_, (Option.some.inj h).symm⟩
  simp only [Option.bind_eq_some_iff] at h
  obtain ⟨id, hid, currency, -, s, hs, c, -, h⟩ := h
  refine .inr ⟨_, (Option.some.inj h).symm, ?_⟩
  cases hitem : d.item "delegation_id" with
  | error e => rw [hitem] at hid; exact absurd hid (by simp [Except.toOption])
  | ok v =>
    rw [hitem] at hid
    obtain rfl := Option.some.inj hid
    cases v with
    | str t =>
      obtain rfl := Option.some.inj hs
      rfl
    | _ => exact absurd hs (by simp [Json.asStr?])

/-- A document that is fit for rotation registers an agent under protocol 1.0 exactly when
it has what that protocol asks for besides. -/
theorem v1_register_agent_accepts (hs : w.Supply H) (hsigns : Signs H w.db p d signature)
    {issued expires : Instant} (hf : FitForRotation H w p d pem issued expires)
    {envelope payload : Json} (henvelope : checkEnvelope H envelope w.clock = .ok (some (pem, payload)))
    (hd : payload.get "delegation" = .ok d)
    (hsig : payload.getD "delegation_signature_b64" (.str "") = .ok (.str signature)) :
    (v1_register_agent H envelope).Wp (World.exec i)
      (fun _ _ res => (∃ name credential, res = some (.registered name credential)) ↔
        FitForV1 H d issued expires) [] w := by
  have hrefuse : ∀ x : HttpError, ¬ FitForV1 H d issued expires →
      ((∃ name credential, some (Reply.error x) = some (.registered name credential)) ↔
        FitForV1 H d issued expires) :=
    fun x hno => ⟨fun ⟨_, _, h⟩ => absurd h (by simp), fun h => absurd h hno⟩
  obtain ⟨kvs, rfl⟩ := hf.object
  have hpid := get_isStr hf.parent
  have hkey := get_isStr hf.key
  refine wp_now ?_
  rw [henvelope]
  dsimp only
  rw [hd, hsig]
  dsimp only
  rw [show (Json.dict kvs).orEmpty = .dict kvs from if_pos hf.truthy]
  split
  · next e hkeys =>
    exact ⟨fun ⟨_, _, h⟩ => absurd h (by simp), fun ⟨⟨keys, hok, _⟩, _, _⟩ =>
      absurd (hok.symm.trans hkeys) (by simp)⟩
  next keys hkeys =>
  split
  · next hmissing =>
    refine hrefuse _ fun ⟨⟨keys', hok, hall⟩, _, _⟩ => ?_
    obtain rfl := Except.ok.inj (hok.symm.trans hkeys)
    rw [hall] at hmissing
    exact absurd hmissing (by decide)
  next hall =>
  have hmembers : ∃ keys, iterKeys (.dict kvs) = .ok keys ∧
      (V1_REQUIRED.all fun k => keys.contains k) = true := ⟨keys, hkeys, by simpa using hall⟩
  rw [show ((Json.dict kvs).item "parent_id").toOption.bind bindText = some (some p.parent_id) by
    simp [Json.item, hpid, Except.toOption, bindText]]
  refine wp_query ?_
  rw [hsigns.find (f := fun q => some q.parent_id == some p.parent_id) (by simp)
    fun q hq h => hsigns.byName q hq (by simpa using h)]
  split
  · next hnone => exact absurd hnone (by simp [hf.active])
  next parent hp =>
  obtain rfl := Option.some.inj (Option.filter_eq_some_iff.mp hp).1
  unfold checkV1Delegation
  rw [show ((Json.str signature).asStr?.bind (H.verify_signature p.public_key_pem
    (H.canonical_json (.dict kvs)))) = some true from hsigns.signed]
  refine wp_now ?_
  rw [(rotationTimes_dict hf.times).1]
  dsimp only
  rw [if_neg (fun h => hf.recent (.inl h)), if_neg hf.live]
  split
  · next hlong => exact hrefuse _ fun h => h.lifetime hlong
  next hlong =>
  split
  · next fingerprint delegation_id hfingerprint hid =>
    have hfp : fingerprint = .str (H.public_key_fingerprint pem) := by
      simp only [Json.item, hkey] at hfingerprint
      exact (Except.ok.inj hfingerprint).symm
    rw [if_neg (by simp [hfp, Json.isStr])]
    have hget : (Json.dict kvs).get "delegation_id" = .ok delegation_id := by
      unfold Json.item at hid
      dsimp only at hid
      split at hid
      · next v hv =>
        obtain rfl := Except.ok.inj hid
        show Except.ok ((kvs.lookup _).getD _) = _
        rw [hv]
        rfl
      · exact absurd hid (by simp)
    have hunused := hf.unused
    rw [hget] at hunused
    refine wp_query ?_
    rw [if_neg (by simpa [Except.toOption] using hunused)]
    split
    · next hread =>
      exact ⟨fun ⟨_, _, h⟩ => absurd h (by simp), fun ⟨_, _, v, hv⟩ =>
        absurd (hv.symm.trans hread) (by simp)⟩
    · next reply hread =>
      obtain ⟨x, hx⟩ | ⟨v, hv, _⟩ := readV1Delegation_cases hread
      · obtain rfl := Except.error.inj hx
        exact hrefuse _ fun ⟨_, _, v, hv⟩ => absurd (hv.symm.trans hread) (by simp)
      · exact absurd hv (by simp)
    · next v hread =>
      refine Prog.wp_mono (fun _ _ _ hres => ⟨fun _ => ⟨hmembers, hlong, v, hread⟩, fun _ => hres⟩)
        (enrol_v1_registers hs fun r hr heq => ?_)
      obtain ⟨x, hx⟩ | ⟨v', hv, hitem⟩ := readV1Delegation_cases hread
      · exact absurd hx (by simp)
      obtain rfl := Except.ok.inj hv
      obtain rfl := Except.ok.inj (hid.symm.trans hitem)
      exact List.any_eq_false.mp hunused r hr (by simp [Except.toOption, Json.isStr, heq])
  · next hno =>
    refine ⟨fun ⟨_, _, h⟩ => absurd h (by simp), fun ⟨_, _, v, hv⟩ => ?_⟩
    obtain ⟨x, hx⟩ | ⟨v', -, hitem⟩ := readV1Delegation_cases hv
    · exact absurd hx (by simp)
    · exact (hno _ _ (by simp [Json.item, hkey]; rfl) hitem).elim

/-! ## One document, one use -/

/-- What a document that is fit for rotation registers. -/
theorem registers_iff (hs : w.Supply H) (hsigns : Signs H w.db p d signature)
    {issued expires : Instant} (hf : FitForRotation H w p d pem issued expires) :
    Registers H i w d signature pem ↔ FitForRegistration H w d signature pem issued expires := by
  constructor
  · rintro (⟨doc, hdoc, -⟩ | ⟨envelope, payload, henvelope, hd, hsig, hreg⟩)
    · exact .inl ⟨doc, hdoc⟩
    · refine .inr ⟨envelope, payload, henvelope, hd, hsig, ?_⟩
      exact (Prog.eval_spec [] (v1_register_agent_accepts (i := i) hs hsigns hf henvelope hd hsig)).mp hreg
  · rintro (⟨doc, hdoc⟩ | ⟨envelope, payload, henvelope, hd, hsig, hfit⟩)
    · exact .inl ⟨doc, hdoc, Prog.eval_spec [] (register_agent_accepts (i := i) hs hsigns hf hdoc)⟩
    · refine .inr ⟨envelope, payload, henvelope, hd, hsig, ?_⟩
      exact (Prog.eval_spec [] (v1_register_agent_accepts (i := i) hs hsigns hf henvelope hd hsig)).mpr hfit

/-- Whose key a document replaces. -/
theorem rotates_iff (hs : w.Supply H) (hsigns : Signs H w.db p d signature)
    (hids : (w.db.agents.map Agent.agent_id).Nodup) {a : Agent} (hrow : a ∈ w.db.agents)
    (hown : a.parent_pk = p.id) :
    Rotates H i w d signature pem a.agent_id ↔ ∃ issued expires,
      FitForRotation H w p d pem issued expires ∧ Rotatable w p d pem expires a := by
  have honly : ∀ b ∈ w.db.agents, b.agent_id = a.agent_id → b = a := fun b hb heq =>
    List.inj_on_of_nodup_map hids hb hrow heq
  have hiff : ∀ key, (∃ name credential,
      (Server.serve H (.rotate_agent_key a.agent_id ⟨pem, d, signature⟩ key) [] w i).value =
        some (.rotated name credential)) ↔ admits H key p.org_id = .ok () ∧ ∃ issued expires,
      FitForRotation H w p d pem issued expires ∧ Rotatable w p d pem expires a := fun key =>
    Prog.eval_spec [] (rotate_agent_key_accepts (i := i) hs hsigns hrow honly hown key)
  constructor
  · rintro ⟨key, hrotated⟩
    exact ((hiff key).mp hrotated).2
  · intro hfit
    exact ⟨"", (hiff "").mpr ⟨by simp [admits, Host.is_admin_key], hfit⟩⟩

namespace Sample

/-- One agent of the parent. -/
def lone : World := { world (db [] []) with next := 10 }

/-- Two agents of the parent. -/
def siblings : World :=
  { world { db [] [] with
      agents := [agent ["make_payment"] 1000,
        { agent ["make_payment"] 1000 with id := 2, agent_id := "other" }] } with next := 10 }

/-- What rotation reads of a document, valid at the epoch. -/
def bareDelegation : Json :=
  .dict [("delegation_id", .str "fresh"), ("parent_id", .str "parent"),
    ("agent_public_key_fingerprint", .str "new-key"), ("issued_at", .int 0),
    ("expires_at", .int 1000)]

/-- A whole document. -/
def delegation : DelegationDocument := ⟨"fresh", "parent", "new-key", ["make_payment"], 500, "INR", 0, 1000⟩

end Sample

end Paari
