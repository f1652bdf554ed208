import Paari.Grounds

/-!
# Who owns a row

Every table names the owner of its rows: a parent, an agent, an intent. `DB.rows` is the
database with nothing but these names and the organization each row carries. A write adds
the rows it inserts and takes none away, so what a handler has read or committed is still
there when it commits again (`Sight.Sure`).
-/

namespace Paari

open Atomic

/-- A row by its key, its owner and its organization. -/
inductive Row
  | parent (id : Nat) (org_id : String)
  | delegation (delegation_id : String) (parent_pk : Nat) (org_id : String)
  | revocation (revocation_id agent_id org_id : String)
  | agent (id : Nat) (agent_id : String) (parent_pk : Nat) (org_id : String)
  | credential (credential_id : String) (agent_pk : Nat) (org_id : String)
  | mandate (mandate_id agent_id org_id : String)
  | intent (intent_id agent_id org_id : String)
  | challenge (challenge_id intent_id org_id : String)
  | authorization (authorization_id agent_id org_id : String)
  | txn (authorization_id agent_id org_id : String)
deriving DecidableEq

def ParentAuthority.row (p : ParentAuthority) : Row := .parent p.id p.org_id
def DelegationRecord.row (d : DelegationRecord) : Row := .delegation d.delegation_id d.parent_pk d.org_id
def RevocationRecord.row (r : RevocationRecord) : Row := .revocation r.revocation_id r.agent_id r.org_id
def Agent.row (a : Agent) : Row := .agent a.id a.agent_id a.parent_pk a.org_id
def Credential.row (c : Credential) : Row := .credential c.credential_id c.agent_pk c.org_id
def UserPaymentMandate.row (m : UserPaymentMandate) : Row := .mandate m.mandate_id m.agent_id m.org_id
def PaymentIntent.row (i : PaymentIntent) : Row := .intent i.intent_id i.agent_id i.org_id
def MFAChallenge.row (c : MFAChallenge) : Row := .challenge c.challenge_id c.intent_id c.org_id
def BoundedAuthorization.row (u : BoundedAuthorization) : Row :=
  .authorization u.authorization_id u.agent_id u.org_id
def ProviderTransaction.row (t : ProviderTransaction) : Row := .txn t.authorization_id t.agent_id t.org_id

/-- All rows. -/
def DB.rows (db : DB) : List Row :=
  db.parents.map ParentAuthority.row ++ db.delegations.map DelegationRecord.row ++
    db.revocations.map RevocationRecord.row ++ db.agents.map Agent.row ++
    db.credentials.map Credential.row ++ db.mandates.map UserPaymentMandate.row ++
    db.intents.map PaymentIntent.row ++ db.challenges.map MFAChallenge.row ++
    db.authorizations.map BoundedAuthorization.row ++ db.txns.map ProviderTransaction.row

/-- The row a write inserts. -/
def Write.row : Write → Option Row
  | .insertParent p => some p.row
  | .insertDelegation d => some d.row
  | .insertRevocation r => some r.row
  | .insertAgent a => some a.row
  | .insertCredential c => some c.row
  | .insertMandate m => some m.row
  | .insertIntent i => some i.row
  | .insertChallenge c => some c.row
  | .insertAuthorization u => some u.row
  | .insertTxn t => some t.row
  | _ => none

section
variable {db db' : DB} {r : Row}

theorem rows_congr (hp : db'.parents.map ParentAuthority.row = db.parents.map ParentAuthority.row)
    (ha : db'.agents.map Agent.row = db.agents.map Agent.row)
    (hc : db'.credentials.map Credential.row = db.credentials.map Credential.row)
    (hm : db'.mandates.map UserPaymentMandate.row = db.mandates.map UserPaymentMandate.row)
    (hi : db'.intents.map PaymentIntent.row = db.intents.map PaymentIntent.row)
    (hch : db'.challenges.map MFAChallenge.row = db.challenges.map MFAChallenge.row)
    (ht : db'.txns.map ProviderTransaction.row = db.txns.map ProviderTransaction.row)
    (hd : db'.delegations = db.delegations) (hr : db'.revocations = db.revocations)
    (hu : db'.authorizations = db.authorizations) : db'.rows = db.rows := by
  unfold DB.rows
  rw [hp, ha, hc, hm, hi, hch, ht, hd, hr, hu]

theorem apply_rows {x : Write} (h : db.apply x = some db') :
    r ∈ db'.rows ↔ r ∈ db.rows ∨ x.row = some r := by
  have hsame : db'.rows = db.rows → x.row = none → (r ∈ db'.rows ↔ r ∈ db.rows ∨ x.row = some r) := by
    intro hrows hnone
    rw [hrows, hnone]
    simp
  cases x with
  | updateTxn l c =>
    simp only [DB.apply] at h
    split at h
    · exact absurd h (by simp)
    · obtain rfl := Option.some.inj h
      refine hsame (rows_congr ?_ ?_ ?_ ?_ ?_ ?_ ?_ ?_ ?_ ?_) rfl
      all_goals first | rfl | exact map_updateWhere (fun _ => by rfl) _
  | insertBinding b =>
    obtain ⟨_, _, heq⟩ := Option.bind_eq_some_iff.mp h
    exact hsame (by rw [← Option.some.inj heq]; rfl) rfl
  | insertProof p =>
    obtain ⟨_, _, heq⟩ := Option.bind_eq_some_iff.mp h
    exact hsame (by rw [← Option.some.inj heq]; rfl) rfl
  | insertAudit e => exact hsame (by rw [← Option.some.inj h]; rfl) rfl
  | insertParent _ | insertDelegation _ | insertRevocation _ | insertAgent _ | insertCredential _
  | insertMandate _ | insertIntent _ | insertChallenge _ | insertAuthorization _ | insertTxn _ =>
    obtain ⟨_, hrows, heq⟩ := Option.bind_eq_some_iff.mp h
    obtain ⟨rfl, -⟩ := insertUnique_eq hrows
    obtain rfl := Option.some.inj heq
    simp only [DB.rows, Write.row, List.map_append, List.map_cons, List.map_nil, List.mem_append,
      List.mem_singleton, Option.some.injEq]
    grind
  | _ =>
    -- an update keeps the names
    obtain rfl := Option.some.inj h
    refine hsame (rows_congr ?_ ?_ ?_ ?_ ?_ ?_ ?_ ?_ ?_ ?_) rfl
    all_goals first | rfl | exact map_updateWhere (fun _ => by rfl) _

/-- A transaction adds the rows it inserts. -/
theorem applyAll_rows {ws : List Write} : ∀ {db db' : DB}, db.applyAll ws = .ok db' →
    (r ∈ db'.rows ↔ r ∈ db.rows ∨ ∃ x ∈ ws, x.row = some r) := by
  induction ws with
  | nil =>
    intro db db' h
    rw [← Except.ok.inj h]
    simp
  | cons x ws ih =>
    intro db db' h
    obtain ⟨mid, hmid, hrest⟩ := applyAll_cons h
    rw [ih hrest, apply_rows hmid]
    simp [or_assoc]

/-- Usage counts own nothing. -/
theorem rows_of_terms {as : List BoundedAuthorization}
    (h : as.map BoundedAuthorization.terms = db.authorizations.map BoundedAuthorization.terms) :
    ({ db with authorizations := as } : DB).rows = db.rows := by
  have hrow : ∀ bs : List BoundedAuthorization, bs.map BoundedAuthorization.row =
      (bs.map BoundedAuthorization.terms).map BoundedAuthorization.row := by
    intro bs
    rw [List.map_map]
    rfl
  simp only [DB.rows]
  rw [hrow as, h, ← hrow]

theorem mem_agent_rows {id parent_pk : Nat} {agent_id org_id : String} :
    .agent id agent_id parent_pk org_id ∈ db.rows ↔ ∃ a ∈ db.agents, a.id = id ∧
      a.agent_id = agent_id ∧ a.parent_pk = parent_pk ∧ a.org_id = org_id := by
  simp [DB.rows, ParentAuthority.row, DelegationRecord.row, RevocationRecord.row, Agent.row,
    Credential.row, UserPaymentMandate.row, PaymentIntent.row, MFAChallenge.row,
    BoundedAuthorization.row, ProviderTransaction.row]

theorem agent_row_mem {a : Agent} (h : a ∈ db.agents) : a.row ∈ db.rows :=
  mem_agent_rows.mpr ⟨a, h, rfl, rfl, rfl, rfl⟩

theorem parent_row_mem {p : ParentAuthority} (h : p ∈ db.parents) : p.row ∈ db.rows := by
  simp only [DB.rows, List.mem_append]
  simp only [List.mem_map_of_mem h, true_or]

theorem intent_row_mem {i : PaymentIntent} (h : i ∈ db.intents) : i.row ∈ db.rows := by
  simp only [DB.rows, List.mem_append]
  simp only [List.mem_map_of_mem h, true_or, or_true]

theorem authorization_row_mem {u : BoundedAuthorization} (h : u ∈ db.authorizations) :
    u.row ∈ db.rows := by
  simp only [DB.rows, List.mem_append]
  simp only [List.mem_map_of_mem h, true_or, or_true]

theorem mem_intent_rows {id agent_id org_id : String} :
    .intent id agent_id org_id ∈ db.rows ↔ ∃ i ∈ db.intents, i.intent_id = id ∧
      i.agent_id = agent_id ∧ i.org_id = org_id := by
  simp [DB.rows, ParentAuthority.row, DelegationRecord.row, RevocationRecord.row, Agent.row,
    Credential.row, UserPaymentMandate.row, PaymentIntent.row, MFAChallenge.row,
    BoundedAuthorization.row, ProviderTransaction.row]

theorem mem_credential_rows {credential_id org_id : String} {agent_pk : Nat} :
    .credential credential_id agent_pk org_id ∈ db.rows ↔ ∃ c ∈ db.credentials,
      c.credential_id = credential_id ∧ c.agent_pk = agent_pk ∧ c.org_id = org_id := by
  simp [DB.rows, ParentAuthority.row, DelegationRecord.row, RevocationRecord.row, Agent.row,
    Credential.row, UserPaymentMandate.row, PaymentIntent.row, MFAChallenge.row,
    BoundedAuthorization.row, ProviderTransaction.row]

theorem mem_authorization_rows {id agent_id org_id : String} :
    .authorization id agent_id org_id ∈ db.rows ↔ ∃ u ∈ db.authorizations,
      u.authorization_id = id ∧ u.agent_id = agent_id ∧ u.org_id = org_id := by
  simp [DB.rows, ParentAuthority.row, DelegationRecord.row, RevocationRecord.row, Agent.row,
    Credential.row, UserPaymentMandate.row, PaymentIntent.row, MFAChallenge.row,
    BoundedAuthorization.row, ProviderTransaction.row]

/-- One agent has a primary key, and one has a name. -/
theorem DB.Keys.agent_row (hk : db.Keys) {id id' p p' : Nat} {n n' o o' : String}
    (h : .agent id n p o ∈ db.rows) (h' : .agent id' n' p' o' ∈ db.rows) (hsame : id = id' ∨ n = n') :
    id = id' ∧ n = n' ∧ p = p' ∧ o = o' := by
  obtain ⟨a, ha, rfl, rfl, rfl, rfl⟩ := mem_agent_rows.mp h
  obtain ⟨b, hb, rfl, rfl, rfl, rfl⟩ := mem_agent_rows.mp h'
  have heq : a = b := by
    rcases hsame with hid | hname
    · exact List.inj_on_of_nodup_map hk.agent_pks ha hb hid
    · exact List.inj_on_of_nodup_map hk.agents ha hb hname
  subst heq
  exact ⟨rfl, rfl, rfl, rfl⟩

theorem DB.Keys.intent_row (hk : db.Keys) {id n n' o o' : String} (h : .intent id n o ∈ db.rows)
    (h' : .intent id n' o' ∈ db.rows) : n = n' ∧ o = o' := by
  obtain ⟨i, hi, rfl, rfl, rfl⟩ := mem_intent_rows.mp h
  obtain ⟨j, hj, hid, rfl, rfl⟩ := mem_intent_rows.mp h'
  obtain rfl : j = i := List.inj_on_of_nodup_map hk.intents hj hi hid
  exact ⟨rfl, rfl⟩

end

/-! ## Along a request -/

/-- What the handler has read or committed is still there. -/
structure Sight.Sure (q : Sight) (db : DB) : Prop where
  seen : ∀ db₀ ∈ q.seen, ∀ r ∈ db₀.rows, r ∈ db.rows
  done : ∀ x ∈ q.done, ∀ r, x.row = some r → r ∈ db.rows

section
variable {q : Sight} {w : World} {db db' : DB} {i : Nat}

/-- What has been read active under its parent. -/
theorem Sight.Sure.acting (h : q.Sure db) {a : Paari.Agent} (ha : q.Acting a) : a.row ∈ db.rows := by
  obtain ⟨db₀, hdb, hmem⟩ := ha.agent
  exact h.seen db₀ hdb _ (agent_row_mem hmem)

/-- The intent behind an authorization is one of the agent's. -/
theorem Sight.Sure.drawn (h : q.Sure db) (hk : db.Keys) {a : Paari.Agent} {i : PaymentIntent}
    (hi : q.Drawn a i) : i.agent_id = a.agent_id := by
  rcases hi with ⟨-, hid⟩ | ⟨i₀, hdone, hid, -, rfl | ⟨⟨db₀, hdb, hmem⟩, hsame⟩⟩
  · exact hid
  · exact hid
  · have hown := h.done _ hdone _ rfl
    have hread := h.seen db₀ hdb _ (intent_row_mem hmem)
    unfold PaymentIntent.row at hown hread
    rw [hsame] at hread
    exact (hk.intent_row hread hown).1.trans hid

theorem Sight.Sure.read (h : q.Sure db) : Sight.Sure ⟨db :: q.seen, q.done⟩ db where
  seen db₀ hdb := by
    rcases List.mem_cons.mp hdb with rfl | hdb
    · exact fun _ => id
    · exact h.seen db₀ hdb
  done := h.done

theorem Sight.Sure.commit (h : q.Sure db) {ws : List Write} (hdb : db.applyAll ws = .ok db') :
    Sight.Sure ⟨q.seen, ws ++ q.done⟩ db' where
  seen db₀ hdb₀ r hr := (applyAll_rows hdb).mpr (.inl (h.seen db₀ hdb₀ r hr))
  done x hx r hr := by
    rcases List.mem_append.mp hx with hx | hx
    · exact (applyAll_rows hdb).mpr (.inr ⟨x, hx, hr⟩)
    · exact (applyAll_rows hdb).mpr (.inl (h.done x hx r hr))

theorem Sight.Sure.use (h : q.Sure db) {as : List BoundedAuthorization}
    (hterms : as.map BoundedAuthorization.terms = db.authorizations.map BoundedAuthorization.terms) :
    q.Sure { db with authorizations := as } := by
  constructor
  · rw [rows_of_terms hterms]
    exact h.seen
  · rw [rows_of_terms hterms]
    exact h.done

/-- What holds of a handler's sight and the database while it runs alone. -/
structure Sight.Keeps (legacy : Bool) (P : Write → Prop) (K : Sight → DB → Prop) : Prop where
  read : ∀ q db, K q db → K ⟨db :: q.seen, q.done⟩ db
  commit : ∀ (q : Sight) db ws db', K q db → q.Sure db → db.Keys → db'.Keys →
    (∀ x ∈ ws, P x ∧ q.Grounds legacy ws x) → db.applyAll ws = .ok db' →
    K ⟨q.seen, ws ++ q.done⟩ db'
  use : ∀ (q : Sight) db as,
    as.map BoundedAuthorization.terms = db.authorizations.map BoundedAuthorization.terms →
    K q db → K q { db with authorizations := as }

/-- The relation of a sight to the world it is about. -/
structure Sight.Tied (K : Sight → DB → Prop) (q : Sight) (w : World) : Prop where
  keep : K q w.db
  sure : q.Sure w.db
  keys : w.db.Keys

variable {legacy : Bool} {P : Write → Prop} {K : Sight → DB → Prop}

theorem Sight.Tied.uses (hK : Sight.Keeps legacy P K) (h : Sight.Tied K q w) {w' : World}
    (huses : Uses w.db w'.db) : Sight.Tied K q w' := by
  have hkeys := (keys_stable fun _ => True).uses huses h.keys
  obtain ⟨as, hterms, heq⟩ := huses
  refine ⟨?_, ?_, hkeys⟩
  · rw [heq]
    exact hK.use q w.db as hterms h.keep
  · rw [heq]
    exact h.sure.use hterms

theorem Sight.Tied.exec (hK : Sight.Keeps legacy P K) (h : Sight.Tied K q w) {s : Stmt}
    (hs : q.Allows legacy s) (hP : ∀ ws, s = .commit ws → ∀ x ∈ ws, P x) (i : Nat) :
    Sight.Tied K (q.after s w) (w.exec i s) := by
  cases s with
  | select => exact ⟨hK.read q _ h.keep, h.sure.read, h.keys⟩
  | commit ws =>
    show Sight.Tied K (q.after (.commit ws) w) (w.commit i ws)
    unfold Sight.after World.commit
    dsimp only
    cases hdb : w.db.applyAll ws with
    | error x => exact h.uses hK (uses_rollback w i)
    | ok db' =>
      have hkeys : db'.Keys :=
        applyAll_keeps_all (keys_stable fun _ => True).write (fun _ _ => trivial) hdb h.keys
      exact ⟨hK.commit q w.db ws db' h.keep h.sure h.keys hkeys
        (fun x hx => ⟨hP ws rfl x hx, hs ws rfl x hx⟩) hdb, h.sure.commit hdb, hkeys⟩
  | _ =>
    refine h.uses hK (uses_exec ?_ w i)
    exact fun _ => nofun

/-- **What every grounded commit keeps, a request handled alone keeps.** -/
theorem serve_tied {H : Host} {r : Request} (hK : Sight.Keeps r.legacy r.Allows K)
    (hstart : K .empty w.db) (hkeys : w.db.Keys) (answers : List Answer) (i : Nat) :
    ∃ q, Sight.Tied K q (Server.serve H r answers w i).store := by
  refine Server.serve_spec (Q := fun w' _ _ => ∃ q, Sight.Tied K q w') answers ?_
  have hconforms : (handler H r).Conforms ((sighted r.legacy).prod (writing r.Allows))
      (fun a qq => True ∧ True) (Sight.empty, ()) :=
    Prog.conforms_prod (handler_sighted H r) (handler_writes H r)
  refine Prog.wp_mono ?_ (Prog.wp_of_conforms (K := fun w' _ qq => Sight.Tied K qq.1 w') ?_ ?_ ?_
    hconforms ?_)
  · rintro w' _ _ ⟨⟨q, _⟩, htied, _⟩
    exact ⟨q, htied.uses hK (uses_rollback w' i)⟩
  · rintro w' _ ⟨q, _⟩ s ⟨q', _⟩ htied ⟨⟨hs, rfl⟩, hP⟩
    exact htied.exec hK hs hP i
  · exact fun _ _ _ _ h => h
  · rintro w' _ ⟨q, _⟩ c a ⟨q', _⟩ htied ⟨rfl, _⟩
    exact htied
  · exact ⟨hstart, ⟨fun _ h => absurd h List.not_mem_nil, fun _ h => absurd h List.not_mem_nil⟩, hkeys⟩

end

end Paari
