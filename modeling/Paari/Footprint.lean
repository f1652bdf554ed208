import Paari.Conduct
import Paari.StatePairs

/-!
# What each request may write

`Request.mayWrite` is the table of every write a request can commit; `handler_writes`
checks the handlers against it. Whatever a table of rows keeps under those writes it
keeps under the request, whatever the request's branches were: the results on mandates,
delegations and revocations use the handlers that change no relevant row only through
this table.
-/

namespace Paari

open Atomic

/-- Audit events and burnt proofs, which any request may add. -/
def Write.Logs (x : Write) : Prop := (∃ e, x = .insertAudit e) ∨ ∃ p, x = .insertProof p

/-- A freshly minted authorization, or the transaction that comes with one. -/
def Write.Mints (x : Write) : Prop :=
  (∃ a : BoundedAuthorization, x = .insertAuthorization a ∧ a.max_usage = 1 ∧ a.usage_count = 0) ∨
    ∃ t : ProviderTransaction, x = .insertTxn t ∧ t.state = .AUTHORIZED

/-- The rows of a registration. -/
def Write.Enrols (x : Write) : Prop :=
  (∃ d, x = .insertDelegation d) ∨ (∃ a, x = .insertAgent a) ∨ ∃ c, x = .insertCredential c

/-- Every write a request may commit, besides its logs. -/
def Request.mayWrite : Request → Write → Prop
  | .register_parent _, x => ∃ p, x = .insertParent p
  | .approve_parent _ _, x => ∃ id tier, x = .setParentStatus id .active tier
  | .reject_parent _ _, x => ∃ id tier, x = .setParentStatus id .rejected tier
  | .revoke_parent _ _, x =>
    (∃ id, x = .setParentStatus id .revoked none) ∨ ∃ c, x = .revokeCredential c none
  | .rotate_parent_key _ _ _, x => ∃ id pem, x = .setParentKey id pem
  | .register_agent _, x | .v1_register_agent _, x => x.Enrols
  | .rotate_agent_key _ _ _, x =>
    (∃ d, x = .insertDelegation d) ∨ (∃ id r, x = .rotateAgent id r) ∨
      (∃ c by_, x = .revokeCredential c by_) ∨ ∃ c, x = .insertCredential c
  | .revoke_agent _ _ _, x =>
    (∃ r, x = .insertRevocation r) ∨ (∃ id, x = .revokeAgent id) ∨ ∃ id, x = .revokeCredentials id
  | .create_mandate _ _, x => ∃ m, x = .insertMandate m
  | .revoke_mandate _ _ _, x => ∃ id t, x = .setMandateStatus id .revoked t
  | .bind_mandate _ _ _, x => ∃ b, x = .insertBinding b
  | .sweep _, x => (∃ id, x = .setMandateStatus id .expired none) ∨
    ∃ id verified reasons, x = .decideIntent id .deny verified reasons
  | .submit_intent _ _, x => (∃ i, x = .insertIntent i) ∨ x.Mints
  | .mfa_challenge _ _, x => (∃ id, x = .voidChallenges id) ∨ ∃ c, x = .insertChallenge c
  | .mfa_verify _, x => (∃ id, x = .useChallenge id) ∨
    (∃ id reasons, x = .decideIntent id .allow true reasons) ∨ x.Mints
  | .consume _ _ _, x | .revoke_authorization _ _ _, x | .webhook _ _, x | .refund _ _ _, x
  | .reconcile _ _ _, x | .batch _, x => x.Settles

/-! ## Programs that only write so -/

/-- Commits write only what `P` allows; everything else is free. -/
def writing (P : Write → Prop) : Protocol World Stmt Call Answer Unit where
  stmt _ s _ _ := ∀ ws, s = .commit ws → ∀ x ∈ ws, P x
  call _ _ _ _ := True

/-- Every commit of the part writes only what `P` allows, and what it returns meets `R`. -/
def Handler.Writes {α : Type} (P : Write → Prop) (R : α → Prop) (p : Handler α) : Prop :=
  p.Conforms (writing P) (fun a _ => R a) ()

/-- All pending writes are allowed. -/
def Session.All (P : Write → Prop) (s : Session) : Prop := ∀ x ∈ s, P x

namespace Session

variable {P : Write → Prop} {s s' : Session} {x : Write}

theorem all_nil : All P [] := fun _ h => absurd h List.not_mem_nil

theorem all_cons (hx : P x) (h : s.All P) : All P (x :: s) := by
  intro y hy
  rcases List.mem_cons.mp hy with rfl | hy
  · exact hx
  · exact h y hy

theorem All.append (h : s.All P) (h' : s'.All P) : All P (s ++ s') := by
  intro y hy
  rcases List.mem_append.mp hy with hy | hy
  · exact h y hy
  · exact h' y hy

theorem all_one (hx : P x) : All P [x] := all_cons hx all_nil

end Session

namespace Handler

variable {P P' : Write → Prop} {α β : Type} {R : β → Prop} {R' : α → Prop}

theorem writes_mono (hP : ∀ x, P x → P' x) {p : Handler β} (h : p.Writes P R) :
    p.Writes P' R := by
  have h' : p.Conforms (writing P) (fun a _ => R a) () := h
  refine Prog.conforms_map id ?_ ?_ ?_ h'
  · exact fun _ _ _ _ hs ws hws x hx => hP x (hs ws hws x hx)
  · exact fun _ _ _ _ h => h
  · exact fun _ _ h => h

theorem writes_bind {p : Handler α} {k : α → Handler β} (hp : p.Writes P R')
    (hk : ∀ a, R' a → (k a).Writes P R) : (p >>= k).Writes P R :=
  Prog.conforms_seq hp fun a _ ha => hk a ha

theorem writes_query {f : DB → α} {k : α → Handler β} (h : ∀ a, (k a).Writes P R) :
    (Handler.query f >>= k).Writes P R :=
  fun w => ⟨(), fun _ hs => absurd hs (by simp), h (f w.db)⟩

theorem writes_now {k : Instant → Handler β} (h : ∀ t, (k t).Writes P R) :
    (Handler.now >>= k).Writes P R :=
  fun w => ⟨(), fun _ hs => absurd hs (by simp), h w.clock⟩

theorem writes_fresh {k : Nat → Handler β} (h : ∀ n, (k n).Writes P R) :
    (Handler.fresh >>= k).Writes P R :=
  fun w => ⟨(), fun _ hs => absurd hs (by simp), h w.next⟩

theorem writes_reads {p : Handler α} {k : α → Handler β} (hp : p.Reads R')
    (hk : ∀ a, R' a → (k a).Writes P R) : (p >>= k).Writes P R := by
  have hstep : ∀ (q : Unit) s w, s = Stmt.select → ∃ q', (writing P).stmt q s w q' ∧ True := by
    rintro q s w rfl
    exact ⟨(), fun _ hs => absurd hs (by simp), trivial⟩
  have hquiet : p.Conforms (writing P) (fun a _ => True ∧ R' a) () :=
    Prog.conforms_of_quiet (fun _ => trivial) (fun _ _ _ _ _ => trivial) hstep hp
  exact Prog.conforms_seq hquiet fun a _ ha => hk a ha.2

/-- What only reads writes nothing. -/
theorem writes_of_reads {p : Handler α} (hp : p.Reads R') : p.Writes (fun _ => False) R' := by
  have hret : (p >>= Prog.ret).Writes (fun _ => False) R' := writes_reads hp fun _ ha => ha
  rwa [Prog.bind_ret] at hret

/-- A part that may already raise the answer. -/
theorem writes_attempt {R' : Except Reply α → Prop} {R : Reply → Prop}
    {p : Handler (Except Reply α)} {k : α → Handler Reply} (hp : p.Reads R')
    (hraise : ∀ e, R e) (hk : ∀ a, R' (.ok a) → (k a).Writes P R) :
    (Handler.attempt p k).Writes P R := by
  refine writes_reads hp fun r hr => ?_
  cases r with
  | error e => exact hraise e
  | ok a => exact hk a hr

theorem writes_commit {ws : Session} {k : Unit → Handler β} (hws : ws.All P)
    (h : (k ()).Writes P R) : (Handler.commit ws >>= k).Writes P R := by
  refine Handler.conforms_commit fun w => ⟨(), fun ws' hs => ?_, fun _ _ => h⟩
  obtain rfl := Stmt.commit.inj hs
  exact hws

theorem writes_tryCommit {ws : Session} {k : Except Write Unit → Handler β} (hws : ws.All P)
    (h : ∀ r, (k r).Writes P R) : (Handler.tryCommit ws >>= k).Writes P R := by
  refine fun w => ⟨(), fun ws' hs => ?_, h _⟩
  obtain rfl := Stmt.commit.inj hs
  exact hws

theorem writes_record_audit {H : Host} {s : Session} {a : AuditArgs} {k : Session → Handler β}
    (h : ∀ e : AuditEvent, e.detail = a.detail → e.transaction_id = a.transaction_id →
      (k (s ++ [.insertAudit e])).Writes P R) : (record_audit H s a >>= k).Writes P R :=
  fun _ => ⟨(), fun _ hs => absurd hs (by simp), h _ rfl rfl⟩

end Handler

/-! ## The handlers -/

section
variable {H : Host} {P : Write → Prop}

theorem Write.logs_audit (e : AuditEvent) : (Write.insertAudit e).Logs := .inl ⟨e, rfl⟩

/-- A burnt proof, or an event that tells of no state. -/
def Write.Notes (x : Write) : Prop :=
  (∃ e, x = .insertAudit e ∧ e.pair = none) ∨ ∃ p, x = .insertProof p

theorem Write.notes_audit {e : AuditEvent} {detail : List (String × Json)}
    (he : e.detail = detail) (h : pairOf detail = none) : (Write.insertAudit e).Notes :=
  .inl ⟨e, rfl, (congrArg pairOf he).trans h⟩

theorem Write.Notes.logs {x : Write} (h : x.Notes) : x.Logs :=
  h.imp (fun ⟨e, he, _⟩ => ⟨e, he⟩) id

/-- The request itself may write it. -/
def Request.Allows (r : Request) (x : Write) : Prop := x.Logs ∨ r.mayWrite x

/-- The same, of a request whose events tell of no state. -/
def Request.Quiet (r : Request) (x : Write) : Prop := x.Notes ∨ r.mayWrite x

theorem Request.Quiet.allows {r : Request} {x : Write} (h : r.Quiet x) : r.Allows x :=
  h.imp Write.Notes.logs id

theorem Session.OnlyProofs.notes {s : Session} (h : s.OnlyProofs) (hP : ∀ x : Write, x.Notes → P x) :
    s.All P :=
  fun x hx => hP x (.inr (h x hx))

/-- What most endpoints start with: the session token, then the session. -/
theorem writes_authenticated {k : Authenticated → Handler Reply} {ctx : RequestContext}
    {token : String} {expected : Option String}
    (hk : ∀ a : Authenticated, a.pending.OnlyProofs → (k a).Writes P fun _ => True) :
    (Handler.attempt (pure (resolve_session_token H token ctx.authorization)) fun token =>
      Handler.attempt (authenticate H ctx token expected) k).Writes P fun _ => True := by
  have hpure : (pure (resolve_session_token H token ctx.authorization) :
      Handler (Except Reply String)).Reads fun _ => True := trivial
  refine Handler.writes_attempt hpure (fun _ => trivial) fun token _ => ?_
  exact Handler.writes_attempt (authenticate_reads H ctx token expected) (fun _ => trivial)
    fun a ha => hk a (ha a rfl)

theorem writes_admin {k : Unit → Handler Reply} {p : Except Reply Unit}
    (hk : (k ()).Writes P fun _ => True) :
    (Handler.attempt (pure p) k).Writes P fun _ => True := by
  have hpure : (pure p : Handler (Except Reply Unit)).Reads fun _ => True := trivial
  exact Handler.writes_attempt hpure (fun _ => trivial) fun _ _ => hk

/-! ### Parents -/

theorem register_parent_writes (req : ParentRegistrationRequest) :
    (register_parent H req).Writes (Request.register_parent req).Quiet fun _ => True := by
  unfold register_parent
  split
  · trivial
  split
  · trivial
  split
  · trivial
  refine Handler.writes_fresh fun id => Handler.writes_fresh fun n => ?_
  exact Handler.writes_commit (Session.all_one (.inr ⟨_, rfl⟩)) trivial

theorem withParent_writes {id key : String} {k : ParentAuthority → Handler Reply}
    (hk : ∀ p, (k p).Writes P fun _ => True) : (withParent H id key k).Writes P fun _ => True := by
  refine Handler.writes_query fun parent => ?_
  split
  · trivial
  · exact writes_admin (hk _)

theorem approve_parent_writes (id key : String) :
    (approve_parent H id key).Writes (Request.approve_parent id key).Quiet fun _ => True := by
  refine withParent_writes fun parent => ?_
  split
  · trivial
  · exact Handler.writes_commit (Session.all_one (.inr ⟨_, _, rfl⟩)) trivial

theorem reject_parent_writes (id key : String) :
    (reject_parent H id key).Writes (Request.reject_parent id key).Quiet fun _ => True :=
  withParent_writes fun _ =>
    Handler.writes_commit (Session.all_one (.inr ⟨_, _, rfl⟩)) trivial

theorem revoke_parent_writes (id key : String) :
    (revoke_parent H id key).Writes (Request.revoke_parent id key).Quiet fun _ => True := by
  refine withParent_writes fun parent => Handler.writes_query fun creds => ?_
  refine Handler.writes_commit (Session.all_cons (.inr (.inl ⟨_, rfl⟩)) ?_) trivial
  intro x hx
  obtain ⟨c, _, rfl⟩ := List.mem_map.mp hx
  exact .inr (.inr ⟨_, rfl⟩)

theorem rotate_parent_key_writes (id pem key : String) :
    (rotate_parent_key H id pem key).Writes (Request.rotate_parent_key id pem key).Quiet
      fun _ => True := by
  refine Handler.writes_query fun parent => ?_
  split
  · trivial
  refine writes_admin ?_
  split
  · trivial
  refine Handler.writes_record_audit fun e he _ => ?_
  refine Handler.writes_commit (Session.all_cons (.inr ⟨_, _, rfl⟩) ?_) trivial
  exact Session.all_one (.inl (Write.notes_audit he rfl))

/-! ### Agents -/

theorem Write.enrols_delegation (d : DelegationRecord) : (Write.insertDelegation d).Enrols :=
  .inl ⟨d, rfl⟩

theorem Write.enrols_agent (a : Agent) : (Write.insertAgent a).Enrols := .inr (.inl ⟨a, rfl⟩)

theorem Write.enrols_credential (c : Credential) : (Write.insertCredential c).Enrols :=
  .inr (.inr ⟨c, rfl⟩)

theorem issueCredential_writes (agent_pk : Nat) (org_id : String) (expires : Instant) :
    (issueCredential H agent_pk org_id expires).Writes P fun _ => True :=
  Handler.writes_fresh fun _ => Handler.writes_now fun _ => Handler.writes_now fun _ => trivial

theorem registrationAudits_writes (hP : ∀ x : Write, x.Notes → P x) {s : Session} (hs : s.All P)
    (agent : Agent) (parent : ParentAuthority) (id : String) {protocol : List (String × Json)}
    (hmute : pairOf (("delegation_id", .str agent.delegation_id) :: protocol) = none)
    (org_id : Option String) :
    (registrationAudits H s agent parent id protocol org_id).Writes P fun s' => s'.All P := by
  refine Handler.writes_record_audit fun e he _ => ?_
  refine fun w => ⟨(), fun _ hw => absurd hw (by simp), ?_⟩
  exact (hs.append (Session.all_one (hP _ (Write.notes_audit he hmute)))).append
    (Session.all_one (hP _ (.inl ⟨_, rfl, rfl⟩)))

theorem register_agent_writes (req : AgentRegistrationRequest) :
    (register_agent H req).Writes (Request.register_agent req).Quiet fun _ => True := by
  refine Handler.writes_query fun parent => ?_
  split
  · trivial
  split
  · trivial
  split
  · trivial
  · trivial
  refine Handler.writes_now fun now => ?_
  split
  · split
    · trivial
    dsimp only
    split
    · trivial
    refine Handler.writes_query fun seen => ?_
    split
    · trivial
    refine Handler.writes_fresh fun id => Handler.writes_fresh fun n => ?_
    refine Handler.writes_commit (Session.all_cons (.inr (Write.enrols_delegation _))
      (Session.all_one (.inr (Write.enrols_agent _)))) ?_
    refine Handler.writes_bind (issueCredential_writes _ _ _) fun c _ => ?_
    refine Handler.writes_commit (Session.all_one (.inr (Write.enrols_credential c))) ?_
    exact Handler.writes_bind (registrationAudits_writes (fun _ => .inl) Session.all_nil _ _ _ rfl _)
      fun s hs => Handler.writes_commit hs trivial
  · trivial

theorem enrol_v1_writes (envelope : Json) (parent : ParentAuthority) (agent_pub : String)
    (d : V1Delegation) :
    (enrol_v1 H parent agent_pub d).Writes (Request.v1_register_agent envelope).Quiet
      fun _ => True := by
  refine Handler.writes_fresh fun id => Handler.writes_fresh fun n => ?_
  refine Handler.writes_bind (issueCredential_writes _ _ _) fun c _ => ?_
  refine Handler.writes_bind (registrationAudits_writes (fun _ => .inl) ?_ _ _ _ rfl _)
    fun s hs => Handler.writes_commit hs trivial
  exact Session.all_cons (.inr (Write.enrols_delegation _))
    (Session.all_cons (.inr (Write.enrols_agent _))
      (Session.all_one (.inr (Write.enrols_credential c))))

theorem v1_register_agent_writes (envelope : Json) :
    (v1_register_agent H envelope).Writes (Request.v1_register_agent envelope).Quiet
      fun _ => True := by
  refine Handler.writes_now fun now => ?_
  split
  · trivial
  · trivial
  split
  · dsimp only
    split
    · trivial
    split
    · trivial
    split
    · trivial
    refine Handler.writes_query fun parent => ?_
    split
    · trivial
    unfold checkV1Delegation
    split
    · trivial
    · trivial
    refine Handler.writes_now fun now => ?_
    split
    · trivial
    · trivial
    split
    · trivial
    split
    · trivial
    split
    · trivial
    split
    · split
      · trivial
      refine Handler.writes_query fun seen => ?_
      split
      · trivial
      split
      · trivial
      · trivial
      · exact enrol_v1_writes _ _ _ _
    · trivial
  · trivial

theorem apply_rotation_writes (id key : String) (req : RotateKeyRequest) (agent : Agent)
    (parent : ParentAuthority) (issued : Instant) (r : Rotation) :
    (apply_rotation H agent parent issued r).Writes (Request.rotate_agent_key id req key).Quiet
      fun _ => True := by
  refine Handler.writes_bind (issueCredential_writes _ _ _) fun c _ => ?_
  refine Handler.writes_query fun old => ?_
  refine Handler.writes_record_audit fun e he _ => Handler.writes_commit ?_ trivial
  refine Session.All.append ?_ (Session.all_one (.inl (Write.notes_audit he rfl)))
  refine Session.all_cons (.inr (.inl ⟨_, rfl⟩)) (Session.all_cons (.inr (.inr (.inl ⟨_, _, rfl⟩))) ?_)
  refine Session.All.append (fun x hx => ?_) (Session.all_one (.inr (.inr (.inr (.inr ⟨c, rfl⟩)))))
  obtain ⟨c', _, rfl⟩ := List.mem_map.mp hx
  exact .inr (.inr (.inr (.inl ⟨_, _, rfl⟩)))

theorem rotate_agent_key_writes (id : String) (req : RotateKeyRequest) (key : String) :
    (rotate_agent_key H id req key).Writes (Request.rotate_agent_key id req key).Quiet
      fun _ => True := by
  refine Handler.writes_query fun agent => ?_
  split
  · trivial
  refine Handler.writes_query fun parent => ?_
  split
  · trivial
  refine writes_admin ?_
  dsimp only
  split
  · trivial
  split
  · trivial
  · trivial
  refine Handler.writes_now fun now => ?_
  split
  · trivial
  split
  · trivial
  split
  · trivial
  split
  · trivial
  split
  · trivial
  refine Handler.writes_query fun seen => ?_
  split
  · trivial
  split
  · trivial
  · exact apply_rotation_writes id key req _ _ _ _

theorem revoke_agent_writes (id : String) (req : AgentRevokeRequest) (key : String) :
    (revoke_agent H id req key).Writes (Request.revoke_agent id req key).Quiet
      fun _ => True := by
  have hcommit : ∀ (agent : Agent) (pending : Session),
      pending.All (Request.revoke_agent id req key).Quiet →
      (commitRevocation agent pending).Writes (Request.revoke_agent id req key).Quiet
        fun _ => True := by
    intro agent pending hp
    refine Handler.writes_commit (hp.append ?_) trivial
    exact Session.all_cons (.inr (.inr (.inl ⟨_, rfl⟩)))
      (Session.all_one (.inr (.inr (.inr ⟨_, rfl⟩))))
  refine Handler.writes_query fun agent => ?_
  split
  · trivial
  split
  · exact hcommit _ _ Session.all_nil
  split
  · refine Handler.writes_query fun parent => ?_
    split
    · trivial
    refine Handler.writes_now fun now => ?_
    split
    · trivial
    refine Handler.writes_query fun used => ?_
    split
    · trivial
    dsimp only
    split
    · trivial
    · trivial
    · exact hcommit _ _ (Session.all_one (.inr (.inl ⟨_, rfl⟩)))
  · trivial

/-! ### Mandates and sweeps -/

theorem create_mandate_writes (req : CreatePaymentMandateRequest) (key : String) :
    (create_user_payment_mandate H req key).Writes (Request.create_mandate req key).Quiet
      fun _ => True := by
  have hinsert : ∀ (agent : Agent) (m : UserPaymentMandate),
      (insert_mandate H req agent m).Writes (Request.create_mandate req key).Quiet
        fun _ => True := by
    intro agent m
    refine Handler.writes_fresh fun n => Handler.writes_query fun parent_id => ?_
    refine Handler.writes_record_audit fun e he _ => ?_
    refine Handler.writes_tryCommit (Session.all_cons (.inr ⟨_, rfl⟩)
      (Session.all_one (.inl (Write.notes_audit he rfl)))) fun r => ?_
    split <;> trivial
  refine Handler.writes_query fun agent => ?_
  split
  · trivial
  refine writes_admin (Handler.writes_now fun now => ?_)
  dsimp only
  split
  · trivial
  split
  · trivial
  split
  · exact hinsert _ _
  split
  · trivial
  split
  · trivial
  · trivial
  · exact hinsert _ _

theorem withMandate_writes {id key : String} {k : UserPaymentMandate → Handler Reply}
    (hk : ∀ m, (k m).Writes P fun _ => True) : (withMandate H id key k).Writes P fun _ => True := by
  refine Handler.writes_query fun mandate => ?_
  split
  · trivial
  · exact writes_admin (hk _)

theorem revoke_mandate_writes (id reason key : String) :
    (revoke_user_payment_mandate H id reason key).Writes
      (Request.revoke_mandate id reason key).Quiet fun _ => True := by
  refine withMandate_writes fun m => ?_
  refine Handler.writes_now fun now => Handler.writes_query fun parent_id => ?_
  refine Handler.writes_record_audit fun e he _ => ?_
  exact Handler.writes_commit (Session.all_cons (.inr ⟨_, _, rfl⟩)
    (Session.all_one (.inl (Write.notes_audit he rfl)))) trivial

theorem bind_mandate_writes (id : String) (req : BindProviderMandateRequest) (key : String) :
    (bind_provider_mandate H id req key).Writes (Request.bind_mandate id req key).Quiet
      fun _ => True := by
  refine withMandate_writes fun m => ?_
  split
  · trivial
  refine Handler.writes_now fun now => ?_
  split
  · trivial
  split
  · trivial
  split
  · trivial
  refine Handler.writes_fresh fun n => Handler.writes_record_audit fun e he _ => ?_
  exact Handler.writes_commit (Session.all_cons (.inr ⟨_, rfl⟩)
    (Session.all_one (.inl (Write.notes_audit he rfl)))) trivial

theorem expireMandates_writes (hP : ∀ x : Write, x.Notes → P x)
    (hexpire : ∀ id, P (.setMandateStatus id .expired none)) :
    ∀ (rows : List UserPaymentMandate) {s : Session}, s.All P →
      (expireMandates H s rows).Writes P fun s' => s'.All P := by
  intro rows
  induction rows with
  | nil => intro s hs; exact hs
  | cons m rows ih =>
    intro s hs
    refine Handler.writes_record_audit fun e he _ => ih ?_
    exact (hs.append (Session.all_one (hexpire _))).append
      (Session.all_one (hP _ (Write.notes_audit he rfl)))

/-- A review that expires is an event of its own trace. -/
theorem expireReviews_writes
    (hdeny : ∀ id verified reasons, P (.decideIntent id .deny verified reasons)) :
    ∀ (rows : List PaymentIntent),
      (∀ i ∈ rows, ∀ e : AuditEvent, e.transaction_id = i.transaction_id → P (.insertAudit e)) →
      ∀ {s : Session}, s.All P → (expireReviews H s rows).Writes P fun s' => s'.All P := by
  intro rows
  induction rows with
  | nil => intro _ s hs; exact hs
  | cons i rows ih =>
    intro hlog s hs
    refine Handler.writes_record_audit fun e _ htrace => ?_
    refine ih (fun j hj => hlog j (List.mem_cons_of_mem _ hj)) ?_
    exact (hs.append (Session.all_one (hdeny _ _ _))).append
      (Session.all_one (hlog i List.mem_cons_self e htrace))

theorem sweep_expired_mandates_writes (hP : ∀ x : Write, x.Notes → P x)
    (hexpire : ∀ id, P (.setMandateStatus id .expired none)) :
    (sweep_expired_mandates H).Writes P fun _ => True := by
  refine Handler.writes_now fun now => Handler.writes_query fun rows => ?_
  refine Handler.writes_bind (expireMandates_writes hP hexpire rows Session.all_nil) fun s hs => ?_
  split
  · exact Handler.writes_commit hs trivial
  · trivial

theorem expire_stale_reviews_writes (key : String) :
    (expire_stale_reviews H).Writes (Request.sweep key).Allows fun _ => True := by
  refine Handler.writes_now fun now => Handler.writes_query fun rows => ?_
  refine Handler.writes_bind (expireReviews_writes (fun id v rs => .inr (.inr ⟨id, v, rs, rfl⟩)) rows
    (fun _ _ e _ => .inl (Write.logs_audit e)) Session.all_nil) fun s hs => ?_
  split
  · exact Handler.writes_commit hs trivial
  · trivial

theorem sweep_writes (key : String) :
    (sweep_mandate_lifecycle H key).Writes (Request.sweep key).Allows fun _ => True := by
  refine writes_admin ?_
  refine Handler.writes_bind (sweep_expired_mandates_writes (fun _ hx => .inl hx.logs)
    fun id => .inr (.inl ⟨id, rfl⟩)) fun _ _ => ?_
  exact Handler.writes_bind (expire_stale_reviews_writes key) fun _ _ => trivial

/-! ### Intents and step-up -/

theorem acquireEach_writes : ∀ (ids : List String) {s : Session}, s.All P →
    (acquireEach H s ids).Writes P fun _ => True := by
  intro ids
  induction ids with
  | nil => intro s _; trivial
  | cons id ids ih =>
    intro s hs
    have hgate : (acquire_mandate_serialization H s id).Writes P fun _ => True :=
      Handler.writes_commit hs fun w => ⟨(), fun _ hw => absurd hw (by simp), trivial⟩
    refine Handler.writes_bind hgate fun got _ => ?_
    split
    · trivial
    · exact ih Session.all_nil

theorem checkEach_reads (p : Proposal) (require_signed : Bool) :
    ∀ ms : List UserPaymentMandate, (checkEach H p require_signed ms).Reads fun _ => True := by
  intro ms
  induction ms with
  | nil => trivial
  | cons m ms ih =>
    refine Handler.reads_query fun d => ?_
    split
    · trivial
    · exact Handler.reads_bind ih fun _ _ => trivial

/-- Evaluating mandates commits the pending work, or leaves it pending. -/
theorem evaluate_mandate_writes {s : Session} (hs : s.All P) (agent_id org_id : String)
    (p : Proposal) (require_signed : Bool) :
    (evaluate_mandate H s agent_id org_id p require_signed).Writes P fun r => r.2.All P := by
  refine Handler.writes_query fun active => ?_
  split
  · exact Handler.writes_query fun lapsed => hs
  refine Handler.writes_bind (acquireEach_writes _ hs) fun got _ => ?_
  split
  · exact Session.all_nil
  refine Handler.writes_query fun active => ?_
  split
  · exact Session.all_nil
  exact Handler.writes_reads (checkEach_reads p require_signed active) fun _ _ => Session.all_nil

theorem proposedAudit_mute (agent : Agent) (req : PaymentIntentRequest) (parent_id : Option String)
    (intent_id : String) : pairOf (proposedAudit agent req parent_id intent_id).detail = none := by
  unfold proposedAudit
  split <;> rfl

theorem record_intent_writes (hP : ∀ x : Write, x.Notes → P x) (hintent : ∀ i, P (.insertIntent i))
    {s : Session} (hs : s.All P) (agent : Agent) (req : PaymentIntentRequest) (v : Verdict) :
    (record_intent H s agent req v).Writes P fun _ => True := by
  refine Handler.writes_now fun t => Handler.writes_fresh fun n => ?_
  refine Handler.writes_query fun parent => ?_
  refine Handler.writes_record_audit fun e he _ => Handler.writes_record_audit fun e' he' _ => ?_
  refine Handler.writes_tryCommit ?_ fun r => ?_
  · exact ((hs.append (Session.all_one (hintent _))).append
      (Session.all_one (hP _ (Write.notes_audit he (proposedAudit_mute _ _ _ _))))).append
      (Session.all_one (hP _ (Write.notes_audit he' rfl)))
  split
  · exact Handler.writes_query fun _ => trivial
  · refine Handler.writes_query fun existing => ?_
    split <;> trivial
  · trivial

/-- What is minted is fresh: single-use and unused. -/
theorem mint_writes (intent : PaymentIntent) :
    (mint_bounded_authorization H intent).Writes P fun a => a.max_usage = 1 ∧ a.usage_count = 0 :=
  Handler.writes_now fun _ => Handler.writes_now fun _ => ⟨rfl, rfl⟩

theorem Write.mints_authorization {a : BoundedAuthorization}
    (h : a.max_usage = 1 ∧ a.usage_count = 0) : (Write.insertAuthorization a).Mints :=
  .inl ⟨a, rfl, h⟩

theorem Write.mints_txn (a : BoundedAuthorization) :
    (Write.insertTxn (record_provider_txn a)).Mints := .inr ⟨_, rfl, rfl⟩

theorem deny_writes (hP : ∀ x : Write, x.Notes → P x) (hintent : ∀ i, P (.insertIntent i))
    {s : Session} (hs : s.All P) (agent : Agent) (req : PaymentIntentRequest) (check : String)
    (reasons : List String) : (deny H s agent req check reasons).Writes P fun _ => True :=
  Handler.writes_bind (record_intent_writes hP hintent hs _ _ _) fun _ _ => trivial

theorem decide_intent_writes (hP : ∀ x : Write, x.Logs → P x) (hintent : ∀ i, P (.insertIntent i))
    (hauth : ∀ a, a.max_usage = 1 ∧ a.usage_count = 0 → P (.insertAuthorization a))
    (htxn : ∀ a, P (.insertTxn (record_provider_txn a))) {s : Session} (hs : s.All P) (agent : Agent)
    (parent : ParentAuthority) (req : PaymentIntentRequest) (now : Instant) (d : MandateDecision) :
    (decide_intent H s agent parent req now d).Writes P fun _ => True := by
  refine Handler.writes_query fun recent => ?_
  dsimp only
  split
  · exact Handler.writes_bind (record_intent_writes (fun x hx => hP x hx.logs) hintent hs _ _ _)
      fun _ _ => trivial
  · refine Handler.writes_bind (record_intent_writes (fun x hx => hP x hx.logs) hintent hs _ _ _)
      fun intent _ => ?_
    refine Handler.writes_bind (mint_writes intent) fun auth hfresh => ?_
    refine Handler.writes_record_audit fun e he _ => Handler.writes_commit ?_ trivial
    exact Session.all_cons (hauth _ hfresh)
      (Session.all_cons (htxn auth) (Session.all_one (hP _ (Write.logs_audit e))))

theorem submit_payment_intent_writes (hP : ∀ x : Write, x.Logs → P x)
    (hintent : ∀ i, P (.insertIntent i))
    (hauth : ∀ a, a.max_usage = 1 ∧ a.usage_count = 0 → P (.insertAuthorization a))
    (htxn : ∀ a, P (.insertTxn (record_provider_txn a))) (ctx : RequestContext)
    (req : PaymentIntentRequest) : (submit_payment_intent H ctx req).Writes P fun _ => True := by
  refine writes_authenticated fun a ha => ?_
  have hn : ∀ x : Write, x.Notes → P x := fun x h => hP x h.logs
  have hs := ha.notes hn
  dsimp only
  split
  · trivial
  refine Handler.writes_now fun now => Handler.writes_query fun existing => ?_
  split
  · exact Handler.writes_query fun _ => trivial
  refine Handler.writes_query fun parent => ?_
  split
  · exact deny_writes hn hintent hs _ _ _ _
  split
  · exact deny_writes hn hintent hs _ _ _ _
  split
  · trivial
  · exact deny_writes hn hintent hs _ _ _ _
  split
  · trivial
  · refine Handler.writes_bind (evaluate_mandate_writes hs _ _ _ _) fun r hr => ?_
    dsimp only
    split
    · exact deny_writes hn hintent hr _ _ _ _
    split
    · exact deny_writes hn hintent hr _ _ _ _
    split
    · exact deny_writes hn hintent hr _ _ _ _
    · exact decide_intent_writes hP hintent hauth htxn hr _ _ _ _ _

theorem request_mfa_challenge_writes (ctx : RequestContext) (req : MFAChallengeRequest) :
    (request_mfa_challenge H ctx req).Writes (Request.mfa_challenge ctx req).Quiet
      fun _ => True := by
  refine Handler.writes_query fun intent => ?_
  split
  · trivial
  refine writes_authenticated fun a ha => ?_
  dsimp only
  split
  · trivial
  refine Handler.writes_now fun now => Handler.writes_fresh fun n => Handler.writes_fresh fun n' => ?_
  refine Handler.writes_commit ((ha.notes fun _ => .inl).append ?_) trivial
  exact Session.all_cons (.inr (.inl ⟨_, rfl⟩)) (Session.all_one (.inr (.inr ⟨_, rfl⟩)))

theorem verify_mfa_challenge_writes (hn : ∀ x : Write, x.Notes → P x)
    (huse : ∀ id, P (.useChallenge id))
    (hdecide : ∀ id reasons, P (.decideIntent id .allow true reasons))
    (hauth : ∀ a, a.max_usage = 1 ∧ a.usage_count = 0 → P (.insertAuthorization a))
    (htxn : ∀ a, P (.insertTxn (record_provider_txn a))) (req : MFAVerifyRequest) :
    (verify_mfa_challenge H req).Writes P fun _ => True := by
  refine Handler.writes_query fun intent => ?_
  split
  · trivial
  refine Handler.writes_query fun challenge => Handler.writes_now fun now => ?_
  split
  · trivial
  refine Handler.writes_query fun agent => ?_
  split
  · trivial
  refine Handler.writes_query fun parent => ?_
  split
  · trivial
  split
  · trivial
  · trivial
  refine Handler.writes_bind (mint_writes _) fun auth hfresh => ?_
  refine Handler.writes_record_audit fun e he _ => Handler.writes_record_audit fun e' he' _ => ?_
  refine Handler.writes_commit ?_ trivial
  refine Session.All.append (Session.All.append ?_ (Session.all_one (hn _ (Write.notes_audit he rfl))))
    (Session.all_one (hn _ (Write.notes_audit he' rfl)))
  exact Session.all_cons (huse _) (Session.all_cons (hdecide _ _)
    (Session.all_cons (hauth _ hfresh) (Session.all_one (htxn auth))))

end

/-! ## Every request -/

/-- What keeps to the desk writes only what a settlement handler does. -/
theorem writes_of_desk {H : Host} {α : Type} {p : Handler α} {q : Desk}
    (h : p.Conforms (desk H) (fun _ _ => True) q) : p.Writes Write.Settles fun _ => True := by
  refine Prog.conforms_map (fun _ => ()) ?_ ?_ ?_ h
  · rintro q s w q' ⟨hallow, _⟩ ws rfl
    exact hallow.settles
  · exact fun _ _ _ _ _ => trivial
  · exact fun _ _ _ => trivial

/-- The requests whose events tell of no state. -/
def Request.quiet : Request → Bool
  | .sweep _ | .submit_intent _ _ | .consume _ _ _ | .revoke_authorization _ _ _ | .webhook _ _
  | .refund _ _ _ | .reconcile _ _ _ | .batch _ => false
  | _ => true

theorem handler_quiet (H : Host) {r : Request} (hr : r.quiet = true) :
    (handler H r).Writes r.Quiet fun _ => True := by
  cases r with
  | register_parent req => exact register_parent_writes req
  | approve_parent id key => exact approve_parent_writes id key
  | reject_parent id key => exact reject_parent_writes id key
  | revoke_parent id key => exact revoke_parent_writes id key
  | rotate_parent_key id pem key => exact rotate_parent_key_writes id pem key
  | register_agent req => exact register_agent_writes req
  | v1_register_agent envelope => exact v1_register_agent_writes envelope
  | rotate_agent_key id req key => exact rotate_agent_key_writes id req key
  | revoke_agent id req key => exact revoke_agent_writes id req key
  | create_mandate req key => exact create_mandate_writes req key
  | revoke_mandate id reason key => exact revoke_mandate_writes id reason key
  | bind_mandate id req key => exact bind_mandate_writes id req key
  | mfa_challenge ctx req => exact request_mfa_challenge_writes ctx req
  | mfa_verify req =>
    exact verify_mfa_challenge_writes (fun _ => .inl) (fun id => .inr (.inl ⟨id, rfl⟩))
      (fun id reasons => .inr (.inr (.inl ⟨id, reasons, rfl⟩)))
      (fun _ h => .inr (.inr (.inr (Write.mints_authorization h))))
      (fun a => .inr (.inr (.inr (Write.mints_txn a)))) req
  | _ => exact absurd hr (by simp [Request.quiet])

/-- **Every request writes only what its line of the table says.** -/
theorem handler_writes (H : Host) (r : Request) : (handler H r).Writes r.Allows fun _ => True := by
  have hdesk : r.settles = true → (handler H r).Writes r.Allows fun _ => True := fun hr => by
    refine Handler.writes_mono (fun x hx => ?_) (writes_of_desk (handler_conforms H hr))
    cases r <;> first | exact .inr hx | exact absurd hr (by simp [Request.settles])
  cases r with
  | sweep key => exact sweep_writes key
  | submit_intent ctx req =>
    exact submit_payment_intent_writes (fun _ => .inl) (fun i => .inr (.inl ⟨i, rfl⟩))
      (fun _ h => .inr (.inr (Write.mints_authorization h)))
      (fun a => .inr (.inr (Write.mints_txn a))) ctx req
  | consume ctx id token => exact hdesk rfl
  | revoke_authorization ctx id token => exact hdesk rfl
  | webhook raw signature => exact hdesk rfl
  | refund ctx id req => exact hdesk rfl
  | reconcile ctx id token => exact hdesk rfl
  | batch n => exact hdesk rfl
  | _ => exact Handler.writes_mono (fun _ => Request.Quiet.allows) (handler_quiet H rfl)

end Paari
