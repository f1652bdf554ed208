import Paari.Delegation

/-!
# A delegation is used once

Three endpoints create or re-key an agent on the authority of a delegation. Each looks the
`delegation_id` up and inserts its record later, in another transaction than the lookup, so
racers all pass the check. What decides is the unique key of the record and what shares a
transaction with it: `consuming` says that a handler's first commit inserts the record
together with the agent it creates or re-keys, and that a later one adds only a credential.
-/

namespace Paari

open Atomic

/-- The `delegation_id` a registration or a rotation carries. -/
def Request.delegation_id : Request → Option String
  | .register_agent req => some req.delegation.delegation_id
  | .v1_register_agent (.dict kvs) =>
    ((kvs.lookup "payload").bind fun payload => (payload.get "delegation").toOption).bind fun d =>
      (d.orEmpty.item "delegation_id").toOption.bind Json.asStr?
  | .rotate_agent_key _ req _ => (req.delegation.item "delegation_id").toOption.bind Json.asStr?
  | _ => none

/-- The reply of a registration or a rotation that went through. -/
def Reply.Succeeds : Reply → Prop
  | .registered _ _ | .rotated _ _ => True
  | _ => False

/-- The columns of the agent are the ones the delegation granted. -/
structure Agent.Follows (H : Host) (a : Agent) (r : DelegationRecord) : Prop where
  named : a.delegation_id = r.delegation_id
  key : H.public_key_fingerprint a.public_key_pem = r.agent_public_key_fingerprint
  capabilities : a.granted_capabilities = r.granted_capabilities
  limit : a.payment_limit_minor_units = r.payment_limit_minor_units
  currency : a.currency = r.currency

/-- Every active agent rests on a consumed delegation, and a delegation has one record. -/
structure Delegated (H : Host) (db : DB) : Prop where
  unique : (db.delegations.map DelegationRecord.delegation_id).Nodup
  backed : ∀ a ∈ db.agents, a.status = .active → ∃ r ∈ db.delegations, a.Follows H r

/-! ## What a handler commits -/

/-- The write creates an agent or re-keys one. -/
def Write.keysAgent : Write → Bool
  | .insertAgent _ | .rotateAgent _ _ => true
  | _ => false

/-- The transaction consumes the delegation `d`: it inserts the record, and with it one
agent or one new key, as the record grants them. -/
structure Consumes (H : Host) (d : String) (ws : List Write) (r : DelegationRecord) : Prop where
  named : r.delegation_id = d
  mem : .insertDelegation r ∈ ws
  only : ∀ r', .insertDelegation r' ∈ ws → r' = r
  created : ∀ a, .insertAgent a ∈ ws → a.Follows H r
  rekeyed : ∀ id rot, .rotateAgent id rot ∈ ws → ∀ a, (Agent.rotate rot a).Follows H r
  once : (ws.filter Write.keysAgent).length ≤ 1

/-- What follows it in a second transaction: a credential, or audit events. -/
def Write.Trails (x : Write) : Prop := x.Logs ∨ ∃ c, x = .insertCredential c

/-- What a handler may commit before and after it has consumed the delegation. -/
def Consents (H : Host) (d : String) (won : Bool) (ws : List Write) : Prop :=
  if won then ∀ x ∈ ws, x.Trails else ∃ r, Consumes H d ws r

/-- Whether the transaction goes through. -/
def World.accepts (w : World) (ws : List Write) : Bool := (w.db.applyAll ws).isOk

theorem accepts_ok {w : World} {ws : List Write} {db' : DB} (h : w.db.applyAll ws = .ok db') :
    w.accepts ws = true := by
  unfold World.accepts
  rw [h]
  rfl

theorem accepts_error {w : World} {ws : List Write} {x : Write} (h : w.db.applyAll ws = .error x) :
    w.accepts ws = false := by
  unfold World.accepts
  rw [h]
  rfl

/-- Handlers that commit nothing before they have consumed the delegation. -/
def consuming (H : Host) (d : String) : Protocol World Stmt Call Answer Bool where
  stmt won s w won' := match s with
    | .commit ws => Consents H d won ws ∧ won' = (won || w.accepts ws)
    | _ => won' = won
  call won _ _ won' := won' = won

section
variable {H : Host} {d : String} {won : Bool} {α β : Type} {Post : β → Bool → Prop}

theorem consuming_query {f : DB → α} {k : α → Handler β}
    (h : ∀ a, (k a).Conforms (consuming H d) Post won) :
    (Handler.query f >>= k).Conforms (consuming H d) Post won := fun w => ⟨won, rfl, h (f w.db)⟩

theorem consuming_now {k : Instant → Handler β}
    (h : ∀ t, (k t).Conforms (consuming H d) Post won) :
    (Handler.now >>= k).Conforms (consuming H d) Post won := fun w => ⟨won, rfl, h w.clock⟩

theorem consuming_fresh {k : Nat → Handler β} (h : ∀ n, (k n).Conforms (consuming H d) Post won) :
    (Handler.fresh >>= k).Conforms (consuming H d) Post won := fun w => ⟨won, rfl, h w.next⟩

theorem consuming_audit {s : Session} {a : AuditArgs} {k : Session → Handler β}
    (h : ∀ e, (k (s ++ [.insertAudit e])).Conforms (consuming H d) Post won) :
    (record_audit H s a >>= k).Conforms (consuming H d) Post won := fun _ => ⟨won, rfl, h _⟩

/-- A commit that goes through consumes the delegation; one that does not ends the handler. -/
theorem consuming_commit {ws : Session} {k : Unit → Handler β} (hws : Consents H d won ws)
    (h : (k ()).Conforms (consuming H d) Post true) :
    (Handler.commit ws >>= k).Conforms (consuming H d) Post won := by
  refine Handler.conforms_commit fun w =>
    ⟨won || (w.db.applyAll ws).isOk, ⟨hws, rfl⟩, fun db hdb => ?_⟩
  rw [hdb, show (won || (Except.ok db : Except Write DB).isOk) = true from Bool.or_true won]
  exact h

/-- A handler succeeds once it has consumed the delegation. -/
def Earned (reply : Reply) (won : Bool) : Prop := reply.Succeeds ↔ won = true

theorem earned_error (e : HttpError) : Earned (.error e) false := ⟨False.elim, nofun⟩

theorem consuming_isError {reply : Reply} (h : reply.IsError) :
    (pure reply : Handler Reply).Conforms (consuming H d) Earned false := by
  obtain ⟨e, rfl⟩ := h
  exact earned_error e

theorem consuming_admin {k : Unit → Handler Reply} {p : Except Reply Unit}
    (hp : ∀ e, p = .error e → e.IsError) (h : (k ()).Conforms (consuming H d) Earned false) :
    (Handler.attempt (pure p) k).Conforms (consuming H d) Earned false := by
  cases p with
  | error e =>
    obtain ⟨x, rfl⟩ := hp e rfl
    exact earned_error x
  | ok u => exact h

/-! ## The three endpoints -/

theorem issueCredential_consuming {k : Credential → Handler β} {agent_pk : Nat} {org_id : String}
    {expires : Instant} (h : ∀ c, (k c).Conforms (consuming H d) Post won) :
    (issueCredential H agent_pk org_id expires >>= k).Conforms (consuming H d) Post won :=
  fun _ => ⟨won, rfl, fun _ => ⟨won, rfl, fun _ => ⟨won, rfl, h _⟩⟩⟩

theorem registrationAudits_consuming {k : Session → Handler β} {s : Session} {agent : Agent}
    {parent : ParentAuthority} {id : String} {protocol : List (String × Json)} {org : Option String}
    (h : ∀ e e', (k (s ++ [.insertAudit e] ++ [.insertAudit e'])).Conforms (consuming H d) Post won) :
    (registrationAudits H s agent parent id protocol org >>= k).Conforms (consuming H d) Post won :=
  fun _ => ⟨won, rfl, fun _ => ⟨won, rfl, h _ _⟩⟩

theorem register_agent_consuming {req : AgentRegistrationRequest}
    (hid : req.delegation.delegation_id = d) :
    (register_agent H req).Conforms (consuming H d) Earned false := by
  refine consuming_query fun parent => ?_
  split
  · exact earned_error _
  next p _ =>
  split
  · exact earned_error _
  split
  · trivial
  · exact earned_error _
  refine consuming_now fun now => ?_
  split
  · next expires issued _ _ =>
    split
    · exact earned_error _
    dsimp only
    split
    · exact earned_error _
    refine consuming_query fun seen => ?_
    split
    · exact earned_error _
    refine consuming_fresh fun id => consuming_fresh fun n => ?_
    refine consuming_commit ⟨_, hid, List.mem_cons_self, ?_, ?_, ?_, ?_⟩ ?_
    · intro r' hr'
      simpa using hr'
    · intro a ha
      simp only [List.mem_cons, List.not_mem_nil, or_false, reduceCtorEq, false_or,
        Write.insertAgent.injEq] at ha
      subst ha
      exact ⟨rfl, rfl, rfl, rfl, rfl⟩
    · intro id rot hrot
      exact absurd hrot (by simp)
    · exact Nat.le_refl 1
    refine issueCredential_consuming fun c => consuming_commit ?_ ?_
    · intro x hx
      exact .inr ⟨c, List.mem_singleton.mp hx⟩
    refine registrationAudits_consuming fun e e' => consuming_commit ?_ ⟨fun _ => rfl, fun _ => trivial⟩
    intro x hx
    simp only [List.nil_append, List.cons_append, List.mem_cons, List.not_mem_nil, or_false] at hx
    rcases hx with rfl | rfl
    · exact .inl (.inl ⟨_, rfl⟩)
    · exact .inl (.inl ⟨_, rfl⟩)
  · trivial

theorem enrol_v1_consuming {parent : ParentAuthority} {agent_pub : String} {v : V1Delegation}
    (hid : v.delegation_id = d) :
    (enrol_v1 H parent agent_pub v).Conforms (consuming H d) Earned false := by
  refine consuming_fresh fun id => consuming_fresh fun n => issueCredential_consuming fun c => ?_
  refine registrationAudits_consuming fun e e' => consuming_commit ?_ ⟨fun _ => rfl, fun _ => trivial⟩
  refine ⟨_, hid, List.mem_cons_self, ?_, ?_, ?_, ?_⟩
  · intro r' hr'
    simpa using hr'
  · intro a ha
    simp only [List.cons_append, List.nil_append, List.mem_cons, List.not_mem_nil, or_false,
      reduceCtorEq, false_or, Write.insertAgent.injEq] at ha
    subst ha
    exact ⟨rfl, rfl, rfl, rfl, rfl⟩
  · intro id rot hrot
    exact absurd hrot (by simp)
  · exact Nat.le_refl 1

theorem checkV1Delegation_consuming {parent : ParentAuthority} {agent_pub : String}
    {doc signature : Json} (hid : (doc.item "delegation_id").toOption.bind Json.asStr? = some d) :
    (checkV1Delegation H parent agent_pub doc signature).Conforms (consuming H d) Earned false := by
  unfold checkV1Delegation
  split
  · trivial
  · exact earned_error _
  refine consuming_now fun now => ?_
  split
  · trivial
  · exact earned_error _
  split
  · exact earned_error _
  split
  · exact earned_error _
  split
  · exact earned_error _
  split
  · split
    · exact earned_error _
    refine consuming_query fun seen => ?_
    split
    · exact earned_error _
    split
    · trivial
    · next reply hread =>
      rcases readV1Delegation_cases hread with ⟨x, hx⟩ | ⟨v, hv, -⟩
      · obtain rfl := Except.error.inj hx
        exact earned_error x
      · exact absurd hv (by simp)
    · next v hread =>
      rcases readV1Delegation_cases hread with ⟨x, hx⟩ | ⟨v', hv, hitem⟩
      · exact absurd hx (by simp)
      · obtain rfl := Except.ok.inj hv
        rw [hitem] at hid
        exact enrol_v1_consuming (Option.some.inj hid)
  · trivial

/-- The envelope that passes is an object, and its payload is the one that is returned. -/
theorem checkEnvelope_cases {envelope : Json} {now : Instant}
    {res : Except Reply (Option (String × Json))} (h : checkEnvelope H envelope now = res) :
    (∃ x, res = .error (.error x)) ∨ res = .ok none ∨
      ∃ kvs payload pub, envelope = .dict kvs ∧ kvs.lookup "payload" = some payload ∧
        res = .ok (some (pub, payload)) := by
  subst h
  unfold checkEnvelope
  dsimp only
  split
  · next kvs =>
    split
    · exact .inl ⟨_, rfl⟩
    split
    · next payload hpayload =>
      split
      · next pub _ =>
        split
        · exact .inl ⟨_, rfl⟩
        split
        · exact .inr (.inl rfl)
        · exact .inl ⟨_, rfl⟩
        · split
          · exact .inl ⟨_, rfl⟩
          · refine .inr (.inr ⟨kvs, .dict payload, pub, rfl, ?_, rfl⟩)
            cases hlookup : kvs.lookup "payload" with
            | none =>
              rw [hlookup] at hpayload
              exact absurd hpayload nofun
            | some v =>
              rw [hlookup] at hpayload
              exact congrArg some hpayload
      · exact .inl ⟨_, rfl⟩
    · exact .inl ⟨_, rfl⟩
  · exact .inl ⟨_, rfl⟩

theorem v1_register_agent_consuming {envelope : Json}
    (hid : (Request.v1_register_agent envelope).delegation_id = some d) :
    (v1_register_agent H envelope).Conforms (consuming H d) Earned false := by
  refine consuming_now fun now => ?_
  split
  · next reply hcheck =>
    rcases checkEnvelope_cases hcheck with ⟨x, hx⟩ | hx | ⟨_, _, _, -, -, hx⟩
    · obtain rfl := Except.error.inj hx
      exact earned_error x
    · exact absurd hx (by simp)
    · exact absurd hx (by simp)
  · trivial
  next pub payload hcheck =>
  rcases checkEnvelope_cases hcheck with ⟨x, hx⟩ | hx | ⟨kvs, payload', pub', rfl, hlookup, hx⟩
  · exact absurd hx (by simp)
  · exact absurd hx (by simp)
  obtain ⟨rfl, rfl⟩ := Prod.mk.inj (Option.some.inj (Except.ok.inj hx))
  split
  · next doc signature hdoc _ =>
    have hdelegation : (doc.orEmpty.item "delegation_id").toOption.bind Json.asStr? = some d := by
      have h := hid
      simp only [Request.delegation_id, hlookup, Option.bind_some, hdoc, Except.toOption] at h
      exact h
    dsimp only
    split
    · trivial
    split
    · exact earned_error _
    split
    · trivial
    refine consuming_query fun parent => ?_
    split
    · exact earned_error _
    · exact checkV1Delegation_consuming hdelegation
  · trivial

theorem apply_rotation_consuming {agent : Agent} {parent : ParentAuthority} {issued : Instant}
    {r : Rotation} (hid : r.delegation_id = d) :
    (apply_rotation H agent parent issued r).Conforms (consuming H d) Earned false := by
  refine issueCredential_consuming fun c => consuming_query fun old => consuming_audit fun e => ?_
  refine consuming_commit ?_ ⟨fun _ => rfl, fun _ => trivial⟩
  refine ⟨_, hid, List.mem_cons_self, ?_, ?_, ?_, ?_⟩
  · intro r' hr'
    simpa using hr'
  · intro a ha
    exact absurd ha (by simp)
  · intro id rot hrot a
    have heq : rot = r := by
      simp at hrot
      exact hrot.2
    subst heq
    exact ⟨rfl, rfl, rfl, rfl, rfl⟩
  · simp [Write.keysAgent, List.filter_cons]

/-- The rotation stores the id the request carries. -/
theorem rotationOf_named {agent : Agent} {doc : Json} {pem : String} {now expires : Instant}
    {r : Rotation} (h : rotationOf agent doc pem now expires = some r)
    (hid : (doc.item "delegation_id").toOption.bind Json.asStr? = some d) : r.delegation_id = d := by
  unfold rotationOf at h
  simp only [Option.bind_eq_bind, Option.bind_eq_some_iff, Option.pure_def] at h
  obtain ⟨id, hitem, _, -, _, -, _, -, _, -, s, hs, _, -, _, -, heq⟩ := h
  rw [hitem, Option.bind_some, hs] at hid
  rw [← Option.some.inj heq]
  exact Option.some.inj hid

theorem rotate_agent_key_consuming {id key : String} {req : RotateKeyRequest}
    (hid : (req.delegation.item "delegation_id").toOption.bind Json.asStr? = some d) :
    (rotate_agent_key H id req key).Conforms (consuming H d) Earned false := by
  refine consuming_query fun agent => ?_
  split
  · exact earned_error _
  refine consuming_query fun parent => ?_
  split
  · exact earned_error _
  next p _ =>
  refine consuming_admin (fun e he => ?_) ?_
  · split at he
    · exact require_admin_org_error he
    · exact absurd he (by simp)
  dsimp only
  split
  · exact earned_error _
  split
  · trivial
  · exact earned_error _
  refine consuming_now fun now => ?_
  split
  · next reply hreply => exact consuming_isError (rotationTimes_error hreply)
  split
  · exact earned_error _
  split
  · exact earned_error _
  split
  · exact earned_error _
  split
  · exact earned_error _
  refine consuming_query fun seen => ?_
  split
  · exact earned_error _
  split
  · trivial
  next r hr => exact apply_rotation_consuming (rotationOf_named hr hid)

/-- **Each of the three endpoints consumes its delegation first.** -/
theorem handler_consuming {r : Request} (hr : r.delegation_id = some d) :
    (handler H r).Conforms (consuming H d) Earned false := by
  cases r with
  | register_agent req => exact register_agent_consuming (Option.some.inj hr)
  | v1_register_agent envelope => exact v1_register_agent_consuming hr
  | rotate_agent_key id req key => exact rotate_agent_key_consuming hr
  | _ => exact absurd hr nofun

end

/-! ## The tables -/

section
variable {H : Host} {db db' : DB} {r : DelegationRecord} {F : Agent → Prop}

theorem apply_delegations {x : Write} (h : db.apply x = some db') :
    (∃ r, x = .insertDelegation r ∧ db'.delegations = db.delegations ++ [r] ∧
      ∀ r' ∈ db.delegations, r'.delegation_id ≠ r.delegation_id) ∨
    (∀ r, x ≠ .insertDelegation r) ∧ db'.delegations = db.delegations := by
  cases x with
  | insertDelegation r =>
    obtain ⟨rows, hrows, heq⟩ := Option.bind_eq_some_iff.mp h
    obtain ⟨rfl, hclash⟩ := insertUnique_eq hrows
    refine .inl ⟨r, rfl, by rw [← Option.some.inj heq], fun r' hr' => ?_⟩
    simpa using hclash r' hr'
  | updateTxn l c =>
    simp only [DB.apply] at h
    split at h
    · exact absurd h (by simp)
    · rw [← Option.some.inj h]
      exact .inr ⟨by simp, rfl⟩
  | _ =>
    -- an update, or an insert under a unique key
    first
      | rw [← Option.some.inj h]
        exact .inr ⟨by simp, rfl⟩
      | obtain ⟨_, _, heq⟩ := Option.bind_eq_some_iff.mp h
        rw [← Option.some.inj heq]
        exact .inr ⟨by simp, rfl⟩

/-- A transaction that inserts the record goes through only while the id is free. -/
theorem applyAll_delegation {ws : List Write} :
    ∀ {db db' : DB}, db.applyAll ws = .ok db' → .insertDelegation r ∈ ws →
      (∀ r' ∈ db.delegations, r'.delegation_id ≠ r.delegation_id) ∧ r ∈ db'.delegations := by
  induction ws with
  | nil => intro db db' _ hr; exact absurd hr List.not_mem_nil
  | cons x ws ih =>
    intro db db' h hr
    obtain ⟨mid, hmid, hrest⟩ := applyAll_cons h
    have hkeep : ∀ r' ∈ mid.delegations, r' ∈ db'.delegations := fun r' hr' =>
      applyAll_keeps_all (K := fun db => r' ∈ db.delegations) (P := fun _ => True)
        (fun d d' y _ hap hmem => by
          rcases apply_delegations hap with ⟨_, -, heq, -⟩ | ⟨-, heq⟩ <;> rw [heq]
          · exact List.mem_append_left _ hmem
          · exact hmem) (fun _ _ => trivial) hrest hr'
    rcases List.mem_cons.mp hr with rfl | hr
    · rcases apply_delegations hmid with ⟨r₀, hr₀, heq, hnew⟩ | ⟨hne, -⟩
      · obtain rfl := Write.insertDelegation.inj hr₀
        exact ⟨hnew, hkeep _ (heq ▸ List.mem_append_right _ List.mem_cons_self)⟩
      · exact absurd rfl (hne r)
    · obtain ⟨hfree, hmem⟩ := ih hrest hr
      refine ⟨fun r' hr' => hfree r' ?_, hmem⟩
      rcases apply_delegations hmid with ⟨_, -, heq, -⟩ | ⟨-, heq⟩ <;> rw [heq]
      · exact List.mem_append_left _ hr'
      · exact hr'

/-- During a transaction: an active agent rests on a record, or is one the transaction keys. -/
structure Delegating (H : Host) (F : Agent → Prop) (db : DB) : Prop where
  unique : (db.delegations.map DelegationRecord.delegation_id).Nodup
  backed : ∀ a ∈ db.agents, a.status = .active → F a ∨ ∃ r ∈ db.delegations, a.Follows H r

/-- The write keys only agents in `F`. -/
structure Write.Keys (F : Agent → Prop) (x : Write) : Prop where
  created : ∀ a, x = .insertAgent a → F a
  rekeyed : ∀ id rot, x = .rotateAgent id rot → ∀ a, F (Agent.rotate rot a)

theorem apply_delegating {x : Write} (hx : x.Keys F) (h : db.apply x = some db')
    (hd : Delegating H F db) : Delegating H F db' := by
  have hmono : ∀ r ∈ db.delegations, r ∈ db'.delegations := by
    intro r hr
    rcases apply_delegations h with ⟨_, -, heq, -⟩ | ⟨-, heq⟩ <;> rw [heq]
    · exact List.mem_append_left _ hr
    · exact hr
  have hold : ∀ a ∈ db.agents, a.status = .active → F a ∨ ∃ r ∈ db'.delegations, a.Follows H r :=
    fun a ha hactive => (hd.backed a ha hactive).imp_right fun ⟨r, hr, hfollows⟩ =>
      ⟨r, hmono r hr, hfollows⟩
  constructor
  · rcases apply_delegations h with ⟨r, -, heq, hnew⟩ | ⟨-, heq⟩ <;> rw [heq]
    · rw [List.map_append, List.map_singleton]
      refine List.nodup_append.mpr ⟨hd.unique, List.nodup_singleton _, ?_⟩
      intro id hid id' hid'
      obtain ⟨r', hr', rfl⟩ := List.mem_map.mp hid
      obtain rfl := List.mem_singleton.mp hid'
      exact hnew r' hr'
    · exact hd.unique
  · intro a' ha' hactive
    rcases apply_agents h with ⟨b, rfl, heq, -⟩ | ⟨id, rot, rfl, heq⟩ | ⟨id, rfl, heq⟩ | heq
    · rw [heq] at ha'
      rcases List.mem_append.mp ha' with ha' | ha'
      · exact hold a' ha' hactive
      · obtain rfl := List.mem_singleton.mp ha'
        exact .inl (hx.created _ rfl)
    · rw [heq] at ha'
      obtain ⟨a, ha, rfl⟩ := mem_updateWhere.mp ha'
      split
      · exact .inl (hx.rekeyed id rot rfl a)
      · next hid =>
        rw [if_neg hid] at hactive
        exact hold a ha hactive
    · rw [heq] at ha'
      obtain ⟨a, ha, rfl⟩ := mem_updateWhere.mp ha'
      split
      · next hid =>
        rw [if_pos hid] at hactive
        exact absurd hactive nofun
      · next hid =>
        rw [if_neg hid] at hactive
        exact hold a ha hactive
    · rw [heq] at ha'
      exact hold a' ha' hactive

theorem Delegated.applyAll (h : Delegated H db) {ws : List Write} (hws : ∀ x ∈ ws, x.Keys F)
    (hdb : db.applyAll ws = .ok db')
    (hF : ∀ a, F a → ∃ r ∈ db'.delegations, a.Follows H r) : Delegated H db' := by
  have hend : Delegating H F db' :=
    applyAll_keeps_all (fun _ _ _ hx hap hd => apply_delegating hx hap hd) hws hdb
      ⟨h.unique, fun a ha hactive => .inr (h.backed a ha hactive)⟩
  exact ⟨hend.unique, fun a ha hactive => (hend.backed a ha hactive).elim (hF a) id⟩

theorem delegated_stable (H : Host) : Stable (fun _ => False) (Delegated H) where
  write _ _ _ h _ _ := h.elim
  use _ _ _ h := ⟨h.unique, h.backed⟩

theorem Write.Trails.keys {x : Write} (h : x.Trails) : x.Keys fun _ => False := by
  rcases h with (⟨e, rfl⟩ | ⟨p, rfl⟩) | ⟨c, rfl⟩ <;> exact ⟨fun _ => nofun, fun _ _ => nofun⟩

theorem Consumes.keys {d : String} {ws : List Write} (h : Consumes H d ws r) :
    ∀ x ∈ ws, x.Keys fun a => a.Follows H r := by
  intro x hx
  constructor
  · rintro a rfl
    exact h.created a hx
  · rintro id rot rfl
    exact h.rekeyed id rot hx

end

/-! ## The race -/

/-- The writes of an event that were committed. -/
def written : Event World Stmt Call Answer → List Write
  | .stmt _ (.commit ws) w => if w.accepts ws then ws else []
  | _ => []

/-- The session of an event. -/
def sessionOf : Event World Stmt Call Answer → Nat
  | .stmt i _ _ | .call i _ _ _ | .died i _ => i

/-- All writes committed in a run. -/
def committed (tr : List (Event World Stmt Call Answer)) : List Write := tr.flatMap written

/-- The writes one session committed. -/
def committedBy (i : Nat) (tr : List (Event World Stmt Call Answer)) : List Write :=
  tr.flatMap fun ev => if sessionOf ev = i then written ev else []

/-- The session consumed a delegation. -/
def Won (tr : List (Event World Stmt Call Answer)) (i : Nat) : Prop :=
  ∃ r, .insertDelegation r ∈ committedBy i tr

section
variable {tr : List (Event World Stmt Call Answer)} {ev : Event World Stmt Call Answer} {i j : Nat}

theorem committed_snoc : committed (tr ++ [ev]) = committed tr ++ written ev := by
  simp [committed]

theorem committedBy_self (h : sessionOf ev = i) :
    committedBy i (tr ++ [ev]) = committedBy i tr ++ written ev := by
  simp [committedBy, h]

theorem committedBy_other (h : sessionOf ev ≠ i) : committedBy i (tr ++ [ev]) = committedBy i tr := by
  simp [committedBy, h]

theorem written_ok {ws : List Write} {w : World} {db' : DB} (h : w.db.applyAll ws = .ok db') :
    written (.stmt i (.commit ws) w) = ws := if_pos (accepts_ok h)

theorem written_error {ws : List Write} {w : World} {x : Write} (h : w.db.applyAll ws = .error x) :
    written (.stmt i (.commit ws) w) = [] := if_neg (by simp [accepts_error h])

theorem committedBy_quiet (h : written ev = []) : committedBy i (tr ++ [ev]) = committedBy i tr := by
  by_cases hi : sessionOf ev = i
  · rw [committedBy_self hi, h, List.append_nil]
  · exact committedBy_other hi

end

/-- What holds while requests with the delegation `d` race: a winner is alone, and until
there is one nothing is committed. -/
structure Racing (H : Host) (d : String) (w : World) (won : Nat → Bool)
    (tr : List (Event World Stmt Call Answer)) : Prop where
  delegated : Delegated H w.db
  won_iff : ∀ i, won i = true ↔ Won tr i
  alone : ∀ i j, won i = true → won j = true → i = j
  stored : ∀ i, won i = true → ∃ r ∈ w.db.delegations, r.delegation_id = d
  idle : ∀ i, won i = false → committedBy i tr = []
  once : ((committed tr).filter Write.keysAgent).length ≤ 1
  open_ : (∀ i, won i = false) → committed tr = []

namespace Racing

variable {H : Host} {d : String} {w : World} {won : Nat → Bool} {i : Nat}
  {tr : List (Event World Stmt Call Answer)} {ev : Event World Stmt Call Answer}

theorem start (h : Delegated H w.db) : Racing H d w (fun _ => false) [] where
  delegated := h
  won_iff _ := ⟨nofun, fun ⟨_, h⟩ => absurd h List.not_mem_nil⟩
  alone _ _ h := absurd h nofun
  stored _ h := absurd h nofun
  idle _ _ := rfl
  once := Nat.zero_le 1
  open_ _ := rfl

/-- A step that commits nothing. -/
theorem quiet (h : Racing H d w won tr) {w' : World} (huses : Uses w.db w'.db)
    (hwritten : written ev = []) :
    Racing H d w' (Function.update won i (won i)) (tr ++ [ev]) := by
  have hdelegated := (delegated_stable H).uses huses h.delegated
  have hrows : w'.db.delegations = w.db.delegations := by
    obtain ⟨_, -, heq⟩ := huses
    rw [heq]
  rw [Function.update_eq_self]
  refine ⟨hdelegated, fun j => ?_, h.alone, ?_, fun j hj => ?_, ?_, fun hopen => ?_⟩
  · unfold Won
    rw [committedBy_quiet hwritten]
    exact h.won_iff j
  · rw [hrows]
    exact h.stored
  · rw [committedBy_quiet hwritten]
    exact h.idle j hj
  · rw [committed_snoc, hwritten, List.append_nil]
    exact h.once
  · rw [committed_snoc, hwritten, List.append_nil]
    exact h.open_ hopen

/-- The winner commits again. -/
theorem trail (h : Racing H d w won tr) (hi : won i = true) {ws : List Write} {db' : DB}
    (hws : ∀ x ∈ ws, x.Trails) (hdb : w.db.applyAll ws = .ok db') :
    Racing H d ({ w with db := db' }.release i) won (tr ++ [.stmt i (.commit ws) w]) := by
  have hkeys : ws.filter Write.keysAgent = [] := by
    rw [List.filter_eq_nil_iff]
    intro x hx
    rcases hws x hx with (⟨e, rfl⟩ | ⟨p, rfl⟩) | ⟨c, rfl⟩ <;> exact Bool.false_ne_true
  have hwritten : written (.stmt i (.commit ws) w) = ws := written_ok hdb
  refine ⟨?_, fun j => ?_, h.alone, fun j hj => ?_, fun j hj => ?_, ?_, fun hopen => ?_⟩
  · exact h.delegated.applyAll (fun x hx => (hws x hx).keys) hdb fun _ hF => hF.elim
  · by_cases hji : i = j
    · subst hji
      obtain ⟨r, hr⟩ := (h.won_iff i).mp hi
      refine ⟨fun _ => ⟨r, ?_⟩, fun _ => hi⟩
      rw [@committedBy_self tr (.stmt i (.commit ws) w) i rfl]
      exact List.mem_append_left _ hr
    · unfold Won
      rw [@committedBy_other tr (.stmt i (.commit ws) w) j hji]
      exact h.won_iff j
  · obtain ⟨r, hr, hid⟩ := h.stored j hj
    refine ⟨r, ?_, hid⟩
    exact applyAll_keeps_all (K := fun db => r ∈ db.delegations) (P := fun _ => True)
      (fun d d' y _ hap hmem => by
        rcases apply_delegations hap with ⟨_, -, heq, -⟩ | ⟨-, heq⟩ <;> rw [heq]
        · exact List.mem_append_left _ hmem
        · exact hmem) (fun _ _ => trivial) hdb hr
  · have hji : i ≠ j := fun hij => absurd (hij ▸ hi) (by rw [hj]; exact Bool.false_ne_true)
    rw [@committedBy_other tr (.stmt i (.commit ws) w) j hji]
    exact h.idle j hj
  · rw [committed_snoc, hwritten, List.filter_append, hkeys, List.append_nil]
    exact h.once
  · exact absurd (hopen i) (by rw [hi]; exact Bool.false_ne_true.symm)

/-- A session consumes the delegation: it was free, so nobody had won before. -/
theorem consume (h : Racing H d w won tr) {ws : List Write} {db' : DB}
    {r : DelegationRecord} (hws : Consumes H d ws r) (hdb : w.db.applyAll ws = .ok db') :
    Racing H d ({ w with db := db' }.release i) (Function.update won i true)
      (tr ++ [.stmt i (.commit ws) w]) := by
  obtain ⟨hfree, hstored⟩ := applyAll_delegation hdb hws.mem
  have hnone : ∀ j, won j = false := by
    intro j
    by_contra hj
    obtain ⟨r', hr', hid⟩ := h.stored j (by simpa using hj)
    exact hfree r' hr' (hid.trans hws.named.symm)
  have hwritten : written (.stmt i (.commit ws) w) = ws := written_ok hdb
  have hwon : ∀ j, Function.update won i true j = true ↔ i = j := by
    intro j
    by_cases hji : i = j
    · subst hji
      simp
    · rw [Function.update_of_ne (Ne.symm hji), hnone j]
      exact ⟨nofun, fun h => absurd h hji⟩
  refine ⟨?_, fun j => ?_, fun j k hj hk => ?_, fun _ _ => ?_, fun j hj => ?_, ?_, fun hopen => ?_⟩
  · exact h.delegated.applyAll hws.keys hdb fun a ha => ⟨r, hstored, ha⟩
  · rw [hwon]
    by_cases hji : i = j
    · subst hji
      refine ⟨fun _ => ⟨r, ?_⟩, fun _ => rfl⟩
      rw [@committedBy_self tr (.stmt i (.commit ws) w) i rfl, hwritten]
      exact List.mem_append_right _ hws.mem
    · unfold Won
      rw [@committedBy_other tr (.stmt i (.commit ws) w) j hji, h.idle j (hnone j)]
      exact ⟨fun h => absurd h hji, fun ⟨_, h⟩ => absurd h List.not_mem_nil⟩
  · exact ((hwon j).mp hj).symm.trans ((hwon k).mp hk)
  · exact ⟨r, hstored, hws.named⟩
  · have hji : i ≠ j := fun hij => absurd ((hwon j).mpr hij) (by rw [hj]; exact Bool.false_ne_true)
    rw [@committedBy_other tr (.stmt i (.commit ws) w) j hji]
    exact h.idle j (hnone j)
  · rw [committed_snoc, hwritten, h.open_ hnone, List.nil_append]
    exact hws.once
  · exact absurd (hopen i) (by simp)

theorem stmt {s : Stmt} {won' : Bool} (h : Racing H d w won tr)
    (hs : (consuming H d).stmt (won i) s w won') :
    Racing H d (w.exec i s) (Function.update won i won') (tr ++ [.stmt i s w]) := by
  cases s with
  | commit ws =>
    obtain ⟨hconsents, rfl⟩ := hs
    show Racing H d (w.commit i ws) _ _
    unfold World.commit World.accepts
    cases hdb : w.db.applyAll ws with
    | error x =>
      rw [show (won i || (Except.error x : Except Write DB).isOk) = won i from Bool.or_false _]
      exact h.quiet (uses_rollback w i) (written_error hdb)
    | ok db' =>
      rw [show (won i || (Except.ok db' : Except Write DB).isOk) = true from Bool.or_true _]
      cases hi : won i with
      | true =>
        rw [hi] at hconsents
        rw [← hi, Function.update_eq_self]
        exact h.trail hi hconsents hdb
      | false =>
        rw [hi] at hconsents
        obtain ⟨r, hr⟩ := hconsents
        exact h.consume hr hdb
  | _ =>
    obtain rfl := hs
    refine h.quiet (uses_exec ?_ w i) rfl
    exact fun _ => nofun

end Racing

/-- **A delegation is used once.** However requests that carry it interleave, fail or die:
at most one agent is created or re-keyed in all; at most one session consumes it, the
requests that succeed are such a session's, and any other commits nothing; and every active
agent has the key, the capabilities, the limit and the currency of the record it names. -/
theorem delegation_used_once {H : Host} {d : String} {reqs : List Request}
    (hreqs : ∀ r ∈ reqs, r.delegation_id = some d) {w : World} (hw : Delegated H w.db)
    {c : Pool World Stmt Call Answer Reply}
    (h : Pool.Reach machine Pool.Free (Pool.start w (reqs.map (handler H))) c) :
    ((committed c.trace).filter Write.keysAgent).length ≤ 1 ∧
      (∀ i j, Won c.trace i → Won c.trace j → i = j) ∧
      (∀ (i : Nat) reply, c.threads[i]? = some (.ret reply) → (reply.Succeeds ↔ Won c.trace i)) ∧
      (∀ i, ¬ Won c.trace i → committedBy i c.trace = []) ∧ Delegated H c.store.db := by
  have hfollows : (Pool.start w (reqs.map (handler H))).Follows (consuming H d)
      (fun _ => Earned) fun _ => false := by
    intro i p hp
    simp only [Pool.start, List.getElem?_map, Option.map_eq_some_iff] at hp
    obtain ⟨r, hr, rfl⟩ := hp
    exact handler_consuming (hreqs r (List.mem_of_getElem? hr))
  obtain ⟨won, hJ, hf⟩ := Pool.sim (J := Racing H d) (fun _ _ _ _ _ _ hJ _ hs => hJ.stmt hs)
    (fun _ _ _ _ _ _ _ hJ _ hc => by
      obtain rfl := hc
      exact hJ.quiet ⟨_, rfl, rfl⟩ rfl)
    (fun w _ _ i _ hJ _ _ => ⟨_, hJ.quiet (uses_rollback w i) rfl⟩)
    (fun _ _ _ _ hJ => ⟨hJ.delegated, hJ.won_iff, hJ.alone, hJ.stored, hJ.idle, hJ.once, hJ.open_⟩)
    (Racing.start hw) hfollows h
  refine ⟨hJ.once, fun i j hi hj => hJ.alone i j ((hJ.won_iff i).mpr hi) ((hJ.won_iff j).mpr hj),
    fun i reply hreply => ?_, fun i hi => hJ.idle i ?_, hJ.delegated⟩
  · have hearned : Earned reply (won i) := hf i _ hreply
    exact hearned.trans (hJ.won_iff i)
  · cases hwon : won i with
    | true => exact absurd ((hJ.won_iff i).mp hwon) hi
    | false => rfl

namespace Sample

/-- Two registrations with one delegation of the parent. -/
def rivals : List Request :=
  [.register_agent ⟨"key", ⟨"d", "parent", "key", ["make_payment"], 500, "INR", 0, 1000⟩, "signature"⟩,
    .register_agent ⟨"key", ⟨"d", "parent", "key", ["make_payment"], 500, "INR", 0, 1000⟩, "signature"⟩]

/-- A deployment with the parent and no agent. -/
def childless : World := { world { DB.empty with parents := [parent] } with next := 10 }

def race : Pool World Stmt Call Answer Reply :=
  Pool.start childless (rivals.map (handler (host false [])))

/-- Both have looked the delegation up before either inserts its record. -/
def raced : Pool World Stmt Call Answer Reply :=
  (race.run machine (List.replicate 5 (.run 0 (.ok .null)))).run machine
    (List.replicate 20 (.run 1 (.ok .null)) ++ List.replicate 20 (.run 0 (.ok .null)))

end Sample

theorem delegation_used_once_raced :
    ((committed Sample.raced.trace).filter Write.keysAgent).length ≤ 1 ∧
      (∀ i j, Won Sample.raced.trace i → Won Sample.raced.trace j → i = j) ∧
      (∀ (i : Nat) reply, Sample.raced.threads[i]? = some (.ret reply) →
        (reply.Succeeds ↔ Won Sample.raced.trace i)) ∧
      (∀ i, ¬ Won Sample.raced.trace i → committedBy i Sample.raced.trace = []) ∧
      Delegated (Sample.host false []) Sample.raced.store.db := by
  refine @delegation_used_once _ "d" Sample.rivals ?_ Sample.childless ?_ _ ?_
  · intro r hr
    simp only [Sample.rivals, List.mem_cons, List.not_mem_nil, or_false, or_self] at hr
    subst hr
    rfl
  · exact ⟨List.nodup_nil, fun _ h => absurd h List.not_mem_nil⟩
  · exact Pool.reach_run _ _ _ _ (Pool.reach_run _ _ _ _ .start)

end Paari
