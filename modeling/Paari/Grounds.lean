import Paari.Unsubmitted

/-!
# What a write rests on

A handler decides on what its queries returned and then inserts rows that copy what it
read: the parent of an agent, the organization of an intent, the intent behind an
authorization. `Grounds` says for every write which rows that must have been, and
`handler_sighted` that every request commits only writes that are grounded in rows it has
read, or inserted itself, before the commit.
-/

namespace Paari

open Atomic

/-- What a handler has read and what it has committed. -/
structure Sight where
  seen : List DB
  done : List Write

namespace Sight

def empty : Sight := ⟨[], []⟩

/-- `q'` is `q` later on. -/
structure Before (q q' : Sight) : Prop where
  seen : ∀ db ∈ q.seen, db ∈ q'.seen
  done : ∀ x ∈ q.done, x ∈ q'.done

theorem Before.refl (q : Sight) : q.Before q := ⟨fun _ => id, fun _ => id⟩

theorem Before.trans {q q' q'' : Sight} (h : q.Before q') (h' : q'.Before q'') : q.Before q'' :=
  ⟨fun db hdb => h'.seen db (h.seen db hdb), fun x hx => h'.done x (h.done x hx)⟩

/-- An agent the handler has read. -/
def Agent (q : Sight) (a : Paari.Agent) : Prop := ∃ db ∈ q.seen, a ∈ db.agents

/-- A parent the handler has read while it was active. -/
def Parent (q : Sight) (p : ParentAuthority) : Prop :=
  p.status = .active ∧ ∃ db ∈ q.seen, p ∈ db.parents

/-- An intent the handler has read. -/
def Intent (q : Sight) (i : PaymentIntent) : Prop := ∃ db ∈ q.seen, i ∈ db.intents

/-- An authorization the handler has read. -/
def Authorization (q : Sight) (u : BoundedAuthorization) : Prop :=
  ∃ db ∈ q.seen, u ∈ db.authorizations

/-- An agent that was read active, under a parent that was read active. -/
structure Acting (q : Sight) (a : Paari.Agent) : Prop where
  agent : q.Agent a
  active : a.status = .active
  parent : ∃ p, q.Parent p ∧ p.id = a.parent_pk

/-- The row that stands for an intent of the agent: it was found under the agent's name,
or stored by the handler, as it was or as it was read back. -/
def Drawn (q : Sight) (a : Paari.Agent) (i : PaymentIntent) : Prop :=
  q.Intent i ∧ i.agent_id = a.agent_id ∨
    ∃ i₀, .insertIntent i₀ ∈ q.done ∧ i₀.agent_id = a.agent_id ∧ i₀.org_id = a.org_id ∧
      (i = i₀ ∨ q.Intent i ∧ i.intent_id = i₀.intent_id)

/-- The organization a registration stores: the legacy route leaves it out. -/
def stored (legacy : Bool) (org_id : String) : String := if legacy then "default" else org_id

/-- What the handler has read or done covers the write, committed together with `ws`. -/
def Grounds (legacy : Bool) (q : Sight) (ws : List Write) : Write → Prop
  | .insertParent p => p.status = .pending_verification
  | .setParentStatus id status _ => status = .active →
      ∃ db ∈ q.seen, ∃ p ∈ db.parents, p.id = id ∧ p.status ≠ .revoked
  | .insertDelegation d => ∃ p, q.Parent p ∧ d.parent_pk = p.id ∧ d.org_id = stored legacy p.org_id
  | .insertRevocation r => r.org_id = "default" ∧ ∃ a, q.Agent a ∧ r.agent_id = a.agent_id
  | .insertAgent a => ∃ p, q.Parent p ∧ a.parent_pk = p.id ∧ a.org_id = p.org_id
  | .rotateAgent id _ => ∃ a, q.Acting a ∧ a.id = id
  | .insertCredential c =>
      (∃ a, (.insertAgent a ∈ q.done ∨ .insertAgent a ∈ ws) ∧ c.agent_pk = a.id ∧
        c.org_id = stored legacy a.org_id) ∨
      ∃ a, q.Acting a ∧ c.agent_pk = a.id ∧ c.org_id = a.org_id
  | .insertMandate m => ∃ a, q.Agent a ∧ m.agent_id = a.agent_id ∧ m.org_id = a.org_id
  | .setMandateStatus _ status _ => status ≠ .active
  | .insertIntent i => ∃ a, q.Acting a ∧ i.agent_id = a.agent_id ∧ i.org_id = a.org_id
  | .insertChallenge c => ∃ i, q.Intent i ∧ c.intent_id = i.intent_id ∧ c.org_id = i.org_id
  | .insertAuthorization u => ∃ a i, q.Acting a ∧ q.Drawn a i ∧ u.intent_id = i.intent_id ∧
      u.agent_id = i.agent_id ∧ u.org_id = i.org_id
  | .insertTxn t => ∃ u, (.insertAuthorization u ∈ ws ∨ q.Authorization u) ∧
      t.authorization_id = u.authorization_id ∧ t.agent_id = u.agent_id ∧ t.org_id = u.org_id
  | _ => True

/-- The statement is one the handler may run. -/
def Allows (legacy : Bool) (q : Sight) (s : Stmt) : Prop :=
  ∀ ws, s = .commit ws → ∀ x ∈ ws, q.Grounds legacy ws x

/-- What it has read and done after the statement. -/
def after (q : Sight) (s : Stmt) (w : World) : Sight :=
  match s with
  | .select => { q with seen := w.db :: q.seen }
  | .commit ws =>
    match w.db.applyAll ws with
    | .ok _ => { q with done := ws ++ q.done }
    | .error _ => q
  | _ => q

section
variable {q q' : Sight}

theorem after_before (s : Stmt) (w : World) : q.Before (q.after s w) := by
  unfold after
  split
  · exact ⟨fun _ => List.mem_cons_of_mem _, fun _ => id⟩
  · split
    · exact ⟨fun _ => id, fun _ => List.mem_append_right _⟩
    · exact .refl q
  · exact .refl q

variable (h : q.Before q')
include h

theorem Agent.mono {a : Paari.Agent} (ha : q.Agent a) : q'.Agent a := by
  obtain ⟨db, hdb, hmem⟩ := ha
  exact ⟨db, h.seen db hdb, hmem⟩

theorem Parent.mono {p : ParentAuthority} (hp : q.Parent p) : q'.Parent p := by
  obtain ⟨hactive, db, hdb, hmem⟩ := hp
  exact ⟨hactive, db, h.seen db hdb, hmem⟩

theorem Intent.mono {i : PaymentIntent} (hi : q.Intent i) : q'.Intent i := by
  obtain ⟨db, hdb, hmem⟩ := hi
  exact ⟨db, h.seen db hdb, hmem⟩

theorem Authorization.mono {u : BoundedAuthorization} (hu : q.Authorization u) :
    q'.Authorization u := by
  obtain ⟨db, hdb, hmem⟩ := hu
  exact ⟨db, h.seen db hdb, hmem⟩

theorem Acting.mono {a : Paari.Agent} (ha : q.Acting a) : q'.Acting a := by
  obtain ⟨p, hp, hid⟩ := ha.parent
  exact ⟨ha.agent.mono h, ha.active, p, hp.mono h, hid⟩

theorem Drawn.mono {a : Paari.Agent} {i : PaymentIntent} (hi : q.Drawn a i) : q'.Drawn a i := by
  rcases hi with ⟨hi, hid⟩ | ⟨i₀, hdone, hid, horg, hrow⟩
  · exact .inl ⟨hi.mono h, hid⟩
  · exact .inr ⟨i₀, h.done _ hdone, hid, horg, hrow.imp_right fun ⟨hi, hsame⟩ => ⟨hi.mono h, hsame⟩⟩

end

end Sight

/-- Handlers that commit only what is grounded. -/
def sighted (legacy : Bool) : Protocol World Stmt Call Answer Sight where
  stmt q s w q' := q.Allows legacy s ∧ q' = q.after s w
  call q _ _ q' := q' = q

/-! ## Rules -/

section
variable {l : Bool} {q : Sight} {H : Host} {α β : Type} {Post : β → Sight → Prop}

/-- A statement that commits nothing. -/
theorem sighted_stmt {s : Stmt} {k : World → Handler β} (hs : ∀ ws, s ≠ .commit ws)
    (h : ∀ w q', q.Before q' → (s = .select → w.db ∈ q'.seen) →
      (k w).Conforms (sighted l) Post q') :
    Prog.Conforms (sighted l) Post (.stmt s k) q := by
  refine fun w => ⟨q.after s w, ⟨fun ws hw => absurd hw (hs ws), rfl⟩, ?_⟩
  refine h w _ (Sight.after_before s w) ?_
  rintro rfl
  exact List.mem_cons_self

theorem sighted_query {f : DB → α} {k : α → Handler β}
    (h : ∀ db q', q.Before q' → db ∈ q'.seen → (k (f db)).Conforms (sighted l) Post q') :
    (Handler.query f >>= k).Conforms (sighted l) Post q :=
  sighted_stmt (fun _ => nofun) fun w q' hq hdb => h w.db q' hq (hdb rfl)

theorem sighted_now {k : Instant → Handler β}
    (h : ∀ t q', q.Before q' → (k t).Conforms (sighted l) Post q') :
    (Handler.now >>= k).Conforms (sighted l) Post q :=
  sighted_stmt (fun _ => nofun) fun w q' hq _ => h w.clock q' hq

theorem sighted_fresh {k : Nat → Handler β}
    (h : ∀ n q', q.Before q' → (k n).Conforms (sighted l) Post q') :
    (Handler.fresh >>= k).Conforms (sighted l) Post q :=
  sighted_stmt (fun _ => nofun) fun w q' hq _ => h w.next q' hq

theorem sighted_audit {s : Session} {a : AuditArgs} {k : Session → Handler β}
    (h : ∀ e q', q.Before q' → (k (s ++ [.insertAudit e])).Conforms (sighted l) Post q') :
    (record_audit H s a >>= k).Conforms (sighted l) Post q :=
  sighted_stmt (fun _ => nofun) fun _ q' hq _ => h _ q' hq

theorem sighted_tryCommit {ws : Session} {k : Except Write Unit → Handler β}
    (hws : ∀ x ∈ ws, q.Grounds l ws x)
    (h : ∀ r q', q.Before q' → (r = .ok () → ∀ x ∈ ws, x ∈ q'.done) →
      (k r).Conforms (sighted l) Post q') :
    (Handler.tryCommit ws >>= k).Conforms (sighted l) Post q := by
  refine fun w => ⟨q.after (.commit ws) w, ⟨fun ws' hs => ?_, rfl⟩, ?_⟩
  · obtain rfl := Stmt.commit.inj hs
    exact hws
  · refine h _ _ (Sight.after_before _ w) fun hr x hx => ?_
    show x ∈ (match w.db.applyAll ws with
      | .ok _ => { q with done := ws ++ q.done }
      | .error _ => q : Sight).done
    cases hdb : w.db.applyAll ws with
    | ok db' => exact List.mem_append_left _ hx
    | error y =>
      rw [hdb] at hr
      exact absurd hr (by simp [Except.map])

theorem sighted_commit {ws : Session} {k : Unit → Handler β} (hws : ∀ x ∈ ws, q.Grounds l ws x)
    (h : ∀ q', q.Before q' → (∀ x ∈ ws, x ∈ q'.done) → (k ()).Conforms (sighted l) Post q') :
    (Handler.commit ws >>= k).Conforms (sighted l) Post q := by
  refine fun w => ⟨q.after (.commit ws) w, ⟨fun ws' hs => ?_, rfl⟩, ?_⟩
  · obtain rfl := Stmt.commit.inj hs
    exact hws
  · show ((match w.db.applyAll ws with
      | .ok _ => pure ()
      | .error _ => .halt) >>= k).Conforms (sighted l) Post (match w.db.applyAll ws with
      | .ok _ => { q with done := ws ++ q.done }
      | .error _ => q)
    cases w.db.applyAll ws with
    | ok db' =>
      exact h _ ⟨fun _ => id, fun _ => List.mem_append_right _⟩ fun x => List.mem_append_left _
    | error y => trivial

/-- Parts whose every write is grounded in nothing. -/
theorem sighted_of_writes {P : Write → Prop} {R : α → Prop}
    (hP : ∀ x, P x → ∀ (q : Sight) ws, q.Grounds l ws x) {p : Handler α} :
    ∀ {q : Sight}, p.Writes P R →
      p.Conforms (sighted l) (fun a q' => q.Before q' ∧ R a) q := by
  induction p with
  | ret a => intro q h; exact ⟨.refl q, h⟩
  | halt => intro q _; trivial
  | stmt s k ih =>
    intro q h w
    obtain ⟨_, hs, hk⟩ := h w
    refine ⟨q.after s w, ⟨fun ws hw x hx => hP x (hs ws hw x hx) q ws, rfl⟩, ?_⟩
    exact Prog.conforms_mono (fun a q' h => ⟨(Sight.after_before s w).trans h.1, h.2⟩) (ih w hk)
  | call c k ih =>
    intro q h a
    obtain ⟨_, _, hk⟩ := h a
    exact ⟨q, rfl, ih a hk⟩

theorem sighted_bind_writes {P : Write → Prop} {R : α → Prop}
    (hP : ∀ x, P x → ∀ (q : Sight) ws, q.Grounds l ws x) {p : Handler α} {k : α → Handler β}
    (hp : p.Writes P R)
    (hk : ∀ a q', q.Before q' → R a → (k a).Conforms (sighted l) Post q') :
    (p >>= k).Conforms (sighted l) Post q :=
  Prog.conforms_seq (sighted_of_writes hP hp) fun a q' h => hk a q' h.1 h.2

theorem sighted_reads {R : α → Prop} {p : Handler α} {k : α → Handler β} (hp : p.Reads R)
    (hk : ∀ a q', q.Before q' → R a → (k a).Conforms (sighted l) Post q') :
    (p >>= k).Conforms (sighted l) Post q :=
  sighted_bind_writes (fun _ h => h.elim) (Handler.writes_of_reads hp) hk

/-! ## Every handler -/

theorem grounds_logs {x : Write} (h : x.Logs) (ws : List Write) : q.Grounds l ws x := by
  rcases h with ⟨e, rfl⟩ | ⟨p, rfl⟩ <;> trivial

/-- A part that may already raise the answer. -/
theorem sighted_attempt {R : Except Reply α → Sight → Prop} {p : Handler (Except Reply α)}
    {k : α → Handler Reply} (hp : p.Conforms (sighted l) R q)
    (hk : ∀ a q', R (.ok a) q' → (k a).Conforms (sighted l) (fun _ _ => True) q') :
    (Handler.attempt p k).Conforms (sighted l) (fun _ _ => True) q := by
  refine Prog.conforms_seq hp fun r q' hr => ?_
  cases r with
  | error e => trivial
  | ok a => exact hk a q' hr

theorem sighted_admin {p : Except Reply Unit} {k : Unit → Handler Reply}
    (hk : (k ()).Conforms (sighted l) (fun _ _ => True) q) :
    (Handler.attempt (pure p) k).Conforms (sighted l) (fun _ _ => True) q := by
  cases p with
  | error e => trivial
  | ok u => exact hk

/-! ### Who is asking -/

/-- What an authenticated request goes on with: its agent was read active. -/
theorem authenticate_sighted (ctx : RequestContext) (token : String) (expected : Option String) :
    (authenticate H ctx token expected).Conforms (sighted l)
      (fun r q' => q.Before q' ∧ ∀ a, r = .ok a → q'.Acting a.agent ∧ a.pending.All Write.Logs) q := by
  have hraise : ∀ (e : Reply) q', q.Before q' → q.Before q' ∧ ∀ a,
      (Except.error e : Except Reply Authenticated) = .ok a →
        q'.Acting a.agent ∧ a.pending.All Write.Logs :=
    fun e q' hq => ⟨hq, fun a h => absurd h (by simp)⟩
  refine sighted_now fun t q₁ h₁ => ?_
  split
  · exact hraise _ _ h₁
  next claims _ =>
  split
  · exact hraise _ _ h₁
  refine sighted_query fun db₂ q₂ h₂ hdb₂ => ?_
  split
  · exact hraise _ _ (h₁.trans h₂)
  next agent hagent =>
  split
  · exact hraise _ _ (h₁.trans h₂)
  next hactive =>
  refine sighted_query fun db₃ q₃ h₃ _ => sighted_now fun now q₄ h₄ => ?_
  split
  · exact hraise _ _ (h₁.trans (h₂.trans (h₃.trans h₄)))
  refine sighted_query fun db₅ q₅ h₅ hdb₅ => ?_
  have hall : q.Before q₅ := h₁.trans (h₂.trans (h₃.trans (h₄.trans h₅)))
  split
  · exact hraise _ _ hall
  next hparent =>
  split
  · exact hraise _ _ hall
  have hacting : q₅.Acting agent := by
    simp only [Bool.not_eq_true', Bool.not_eq_false, Option.any_eq_true, decide_eq_true_eq] at hparent
    obtain ⟨p, hp, hstatus⟩ := hparent
    refine ⟨.mono (h₃.trans (h₄.trans h₅)) ⟨db₂, hdb₂, List.mem_of_find?_eq_some hagent⟩,
      by simpa using hactive, p, ⟨hstatus, db₅, hdb₅, List.mem_of_find?_eq_some hp⟩, ?_⟩
    simpa using List.find?_some hp
  split
  · refine ⟨hall, ?_⟩
    rintro a ⟨rfl⟩
    exact ⟨hacting, Session.all_nil⟩
  split
  · exact hraise _ _ hall
  refine sighted_now fun t q₆ h₆ => ?_
  split
  · exact hraise _ _ (hall.trans h₆)
  refine sighted_reads (verify_request_proof_reads H agent _ ctx token) fun burnt q₇ h₇ hburnt => ?_
  split
  · exact hraise _ _ (hall.trans (h₆.trans h₇))
  · refine ⟨hall.trans (h₆.trans h₇), ?_⟩
    rintro a ⟨rfl⟩
    refine ⟨hacting.mono (h₆.trans h₇), fun x hx => ?_⟩
    obtain ⟨p, rfl⟩ := hburnt _ rfl x hx
    exact .inr ⟨p, rfl⟩

/-- What most endpoints start with. -/
theorem sighted_authenticated {k : Authenticated → Handler Reply} {ctx : RequestContext}
    {token : String} {expected : Option String}
    (hk : ∀ a q', q.Before q' → q'.Acting a.agent → a.pending.All Write.Logs →
      (k a).Conforms (sighted l) (fun _ _ => True) q') :
    (Handler.attempt (pure (resolve_session_token H token ctx.authorization)) fun token =>
      Handler.attempt (authenticate H ctx token expected) k).Conforms (sighted l)
        (fun _ _ => True) q := by
  cases resolve_session_token H token ctx.authorization with
  | error e => trivial
  | ok token =>
    show (Handler.attempt (authenticate H ctx token expected) k).Conforms _ _ _
    exact sighted_attempt (authenticate_sighted ctx token expected) fun a q' h =>
      hk a q' h.1 (h.2 a rfl).1 (h.2 a rfl).2

/-! ### Parents and agents -/

theorem approve_parent_sighted (id key : String) :
    (approve_parent H id key).Conforms (sighted l) (fun _ _ => True) q := by
  refine sighted_query fun db q₁ h₁ hdb => ?_
  split
  · trivial
  next p hp =>
  refine sighted_admin ?_
  dsimp only
  split
  · trivial
  next hrevoked =>
  refine sighted_commit (fun x hx => ?_) fun _ _ _ => trivial
  obtain rfl := List.mem_singleton.mp hx
  exact fun _ => ⟨db, hdb, p, List.mem_of_find?_eq_some hp, rfl, hrevoked⟩

theorem issueCredential_sighted (agent_pk : Nat) (org_id : String) (expires : Instant) :
    (issueCredential H agent_pk org_id expires).Conforms (sighted l)
      (fun c q' => q.Before q' ∧ c.agent_pk = agent_pk ∧ c.org_id = org_id) q :=
  sighted_fresh fun _ _ h₁ => sighted_now fun _ _ h₂ => sighted_now fun _ _ h₃ =>
    ⟨h₁.trans (h₂.trans h₃), rfl, rfl⟩

theorem registrationAudits_sighted (s : Session) (agent : Agent) (parent : ParentAuthority)
    (id : String) (protocol : List (String × Json)) (org_id : Option String) :
    (registrationAudits H s agent parent id protocol org_id).Conforms (sighted l)
      (fun s' q' => q.Before q' ∧ ∃ e e', s' = s ++ [.insertAudit e] ++ [.insertAudit e']) q := by
  refine sighted_audit fun e q₁ h₁ => ?_
  exact sighted_stmt (fun _ => nofun) fun _ q₂ h₂ _ => ⟨h₁.trans h₂, e, _, rfl⟩

/-- A parent that a handler found and tested. -/
theorem parent_of_find {f : ParentAuthority → Bool} {db : DB} {p : ParentAuthority}
    (hdb : db ∈ q.seen)
    (h : (db.parents.find? f).filter (fun p => decide (p.status = .active)) = some p) :
    q.Parent p := by
  obtain ⟨hfound, hactive⟩ := Option.filter_eq_some_iff.mp h
  exact ⟨by simpa using hactive, db, hdb, List.mem_of_find?_eq_some hfound⟩

theorem register_agent_sighted (req : AgentRegistrationRequest) :
    (register_agent H req).Conforms (sighted true) (fun _ _ => True) q := by
  refine sighted_query fun db q₁ _ hdb => ?_
  split
  · trivial
  next p hp =>
  have hparent : q₁.Parent p := parent_of_find hdb hp
  split
  · trivial
  split
  · trivial
  · trivial
  refine sighted_now fun now q₂ h₂ => ?_
  split
  · split
    · trivial
    dsimp only
    split
    · trivial
    refine sighted_query fun seen q₃ h₃ _ => ?_
    split
    · trivial
    refine sighted_fresh fun id q₄ h₄ => sighted_fresh fun n q₅ h₅ => ?_
    have hparent := hparent.mono (h₂.trans (h₃.trans (h₄.trans h₅)))
    refine sighted_commit (fun x hx => ?_) fun q₆ _ hdone => ?_
    · rcases List.mem_cons.mp hx with rfl | hx
      · exact ⟨p, hparent, rfl, rfl⟩
      · obtain rfl := List.mem_singleton.mp hx
        exact ⟨p, hparent, rfl, rfl⟩
    refine Prog.conforms_seq (issueCredential_sighted _ _ _) fun c q₇ hc => ?_
    refine sighted_commit (fun x hx => ?_) fun q₈ _ _ => ?_
    · obtain rfl := List.mem_singleton.mp hx
      refine .inl ⟨_, .inl (hc.1.done _ (hdone _ (List.mem_cons_of_mem _ List.mem_cons_self))),
        hc.2.1, hc.2.2⟩
    refine Prog.conforms_seq (registrationAudits_sighted _ _ _ _ _ _) fun s q₉ hs => ?_
    obtain ⟨-, e, e', rfl⟩ := hs
    refine sighted_commit (fun x hx => ?_) fun _ _ _ => trivial
    simp only [List.nil_append, List.cons_append, List.mem_cons, List.not_mem_nil, or_false] at hx
    rcases hx with rfl | rfl <;> trivial
  · trivial

theorem enrol_v1_sighted {parent : ParentAuthority} (hparent : q.Parent parent) (agent_pub : String)
    (d : V1Delegation) :
    (enrol_v1 H parent agent_pub d).Conforms (sighted false) (fun _ _ => True) q := by
  refine sighted_fresh fun id q₁ h₁ => sighted_fresh fun n q₂ h₂ => ?_
  refine Prog.conforms_seq (issueCredential_sighted _ _ _) fun c q₃ hc => ?_
  refine Prog.conforms_seq (registrationAudits_sighted _ _ _ _ _ _) fun s q₄ hs => ?_
  obtain ⟨h₄, e, e', rfl⟩ := hs
  have hparent := hparent.mono (h₁.trans (h₂.trans (hc.1.trans h₄)))
  refine sighted_commit (fun x hx => ?_) fun _ _ _ => trivial
  simp only [List.cons_append, List.nil_append, List.mem_cons, List.not_mem_nil, or_false] at hx
  rcases hx with rfl | rfl | rfl | rfl | rfl
  · exact ⟨parent, hparent, rfl, rfl⟩
  · exact ⟨parent, hparent, rfl, rfl⟩
  · exact .inl ⟨_, .inr (List.mem_cons_of_mem _ List.mem_cons_self), hc.2.1, hc.2.2⟩
  · trivial
  · trivial

theorem v1_register_agent_sighted (envelope : Json) :
    (v1_register_agent H envelope).Conforms (sighted false) (fun _ _ => True) q := by
  refine sighted_now fun now q₁ _ => ?_
  split
  · trivial
  · trivial
  split
  · dsimp only
    split
    · trivial
    split
    · trivial
    split
    · trivial
    refine sighted_query fun db q₂ _ hdb => ?_
    split
    · trivial
    next p hp =>
    have hparent : q₂.Parent p := parent_of_find hdb hp
    unfold checkV1Delegation
    split
    · trivial
    · trivial
    refine sighted_now fun now q₃ h₃ => ?_
    split
    · trivial
    · trivial
    split
    · trivial
    split
    · trivial
    split
    · trivial
    split
    · split
      · trivial
      refine sighted_query fun seen q₄ h₄ _ => ?_
      split
      · trivial
      split
      · trivial
      · trivial
      · exact enrol_v1_sighted (hparent.mono (h₃.trans h₄)) _ _
    · trivial
  · trivial

theorem apply_rotation_sighted {agent : Agent} {parent : ParentAuthority} (hagent : q.Acting agent)
    (hparent : q.Parent parent) (issued : Instant) (r : Rotation) :
    (apply_rotation H agent parent issued r).Conforms (sighted false) (fun _ _ => True) q := by
  refine Prog.conforms_seq (issueCredential_sighted _ _ _) fun c q₁ hc => ?_
  refine sighted_query fun old q₂ h₂ _ => sighted_audit fun e q₃ h₃ => ?_
  have hq := hc.1.trans (h₂.trans h₃)
  refine sighted_commit (fun x hx => ?_) fun _ _ _ => trivial
  simp only [List.cons_append, List.nil_append, List.append_assoc, List.mem_cons, List.mem_append,
    List.mem_map, List.not_mem_nil, or_false] at hx
  rcases hx with rfl | rfl | ⟨c', -, rfl⟩ | rfl | rfl
  · exact ⟨parent, hparent.mono hq, rfl, rfl⟩
  · exact ⟨agent, hagent.mono hq, rfl⟩
  · trivial
  · exact .inr ⟨agent, hagent.mono hq, hc.2.1, hc.2.2⟩
  · trivial

/-- An agent that a handler found active, under a parent that it found active. -/
theorem acting_of_find {f : Agent → Bool} {db db' : DB} {a : Agent} {p : ParentAuthority}
    (hdb : db ∈ q.seen) (hdb' : db' ∈ q.seen)
    (ha : (db.agents.find? f).filter (fun a => decide (a.status = .active)) = some a)
    (hp : (parent_for db' a).filter (fun p => decide (p.status = .active)) = some p) :
    q.Acting a := by
  obtain ⟨hfound, hactive⟩ := Option.filter_eq_some_iff.mp ha
  obtain ⟨hparent, -⟩ := Option.filter_eq_some_iff.mp hp
  exact ⟨⟨db, hdb, List.mem_of_find?_eq_some hfound⟩, by simpa using hactive, p,
    parent_of_find hdb' hp, by simpa using List.find?_some hparent⟩

theorem rotate_agent_key_sighted (id : String) (req : RotateKeyRequest) (key : String) :
    (rotate_agent_key H id req key).Conforms (sighted false) (fun _ _ => True) q := by
  refine sighted_query fun db q₁ _ hdb => ?_
  split
  · trivial
  next agent ha =>
  refine sighted_query fun db' q₂ h₂ hdb' => ?_
  split
  · trivial
  next parent hp =>
  have hagent : q₂.Acting agent := acting_of_find (h₂.seen db hdb) hdb' ha hp
  have hparent : q₂.Parent parent := parent_of_find hdb' hp
  refine sighted_admin ?_
  dsimp only
  split
  · trivial
  split
  · trivial
  · trivial
  refine sighted_now fun now q₃ h₃ => ?_
  split
  · trivial
  split
  · trivial
  split
  · trivial
  split
  · trivial
  split
  · trivial
  refine sighted_query fun seen q₄ h₄ _ => ?_
  split
  · trivial
  split
  · trivial
  · exact apply_rotation_sighted (hagent.mono (h₃.trans h₄)) (hparent.mono (h₃.trans h₄)) _ _

theorem revoke_agent_sighted (id : String) (req : AgentRevokeRequest) (key : String) :
    (revoke_agent H id req key).Conforms (sighted l) (fun _ _ => True) q := by
  have hcommit : ∀ (q : Sight) (agent : Agent) (pending : Session),
      (∀ ws, ∀ x ∈ pending, q.Grounds l ws x) →
      (commitRevocation agent pending).Conforms (sighted l) (fun _ _ => True) q := by
    intro q agent pending hp
    refine sighted_commit (fun x hx => ?_) fun _ _ _ => trivial
    rcases List.mem_append.mp hx with hx | hx
    · exact hp _ x hx
    · simp only [List.mem_cons, List.not_mem_nil, or_false] at hx
      rcases hx with rfl | rfl <;> trivial
  refine sighted_query fun db q₁ _ hdb => ?_
  split
  · trivial
  next agent ha =>
  split
  · exact hcommit _ _ _ fun _ x hx => absurd hx List.not_mem_nil
  split
  · refine sighted_query fun _ q₂ h₂ _ => ?_
    split
    · trivial
    refine sighted_now fun now q₃ h₃ => ?_
    split
    · trivial
    refine sighted_query fun used q₄ h₄ _ => ?_
    split
    · trivial
    dsimp only
    split
    · trivial
    · trivial
    · refine hcommit _ _ _ fun _ x hx => ?_
      obtain rfl := List.mem_singleton.mp hx
      have hagent : q₁.Agent agent := ⟨db, hdb, List.mem_of_find?_eq_some ha⟩
      exact ⟨rfl, agent, hagent.mono (h₂.trans (h₃.trans h₄)), rfl⟩
  · trivial

/-! ### Mandates -/

theorem insert_mandate_sighted {agent : Agent} (hagent : q.Agent agent)
    (req : CreatePaymentMandateRequest) {m : UserPaymentMandate} (hid : m.agent_id = agent.agent_id)
    (horg : m.org_id = agent.org_id) :
    (insert_mandate H req agent m).Conforms (sighted l) (fun _ _ => True) q := by
  refine sighted_fresh fun n q₁ h₁ => sighted_query fun db q₂ h₂ _ => ?_
  refine sighted_audit fun e q₃ h₃ => ?_
  refine sighted_tryCommit (fun x hx => ?_) fun r _ _ _ => ?_
  · simp only [List.cons_append, List.nil_append, List.mem_cons, List.not_mem_nil, or_false] at hx
    rcases hx with rfl | rfl
    · exact ⟨agent, hagent.mono (h₁.trans (h₂.trans h₃)), hid, horg⟩
    · trivial
  · cases r <;> trivial

theorem create_mandate_sighted (req : CreatePaymentMandateRequest) (key : String) :
    (create_user_payment_mandate H req key).Conforms (sighted l) (fun _ _ => True) q := by
  refine sighted_query fun db q₁ _ hdb => ?_
  split
  · trivial
  next agent ha =>
  have hagent : q₁.Agent agent := ⟨db, hdb, List.mem_of_find?_eq_some ha⟩
  refine sighted_admin (sighted_now fun now q₂ h₂ => ?_)
  have hinsert := fun m => insert_mandate_sighted (H := H) (l := l) (m := m) (hagent.mono h₂) req
  dsimp only
  split
  · trivial
  split
  · trivial
  split
  · exact hinsert _ rfl rfl
  split
  · trivial
  split
  · trivial
  · trivial
  · exact hinsert _ rfl rfl

/-! ### Intents -/

/-- The row that `_record_intent` returns stands for the agent's request. -/
theorem record_intent_sighted {s : Session} (hs : s.All Write.Logs) {agent : Agent}
    (hagent : q.Acting agent) (req : PaymentIntentRequest) (v : Verdict) :
    (record_intent H s agent req v).Conforms (sighted l)
      (fun i q' => q.Before q' ∧ q'.Drawn agent i) q := by
  refine sighted_now fun t q₁ h₁ => sighted_fresh fun n q₂ h₂ => ?_
  refine sighted_query fun parent q₃ h₃ _ => sighted_audit fun e q₄ h₄ => ?_
  refine sighted_audit fun e' q₅ h₅ => ?_
  have hq := h₁.trans (h₂.trans (h₃.trans (h₄.trans h₅)))
  refine sighted_tryCommit (fun x hx => ?_) fun r q₆ h₆ hdone => ?_
  · simp only [List.append_assoc, List.mem_append, List.mem_singleton] at hx
    rcases hx with hx | rfl | rfl | rfl
    · exact grounds_logs (hs x hx) _
    · exact ⟨agent, hagent.mono hq, rfl, rfl⟩
    · trivial
    · trivial
  split
  · refine sighted_query fun db q₇ h₇ hdb => ?_
    have hrow : .insertIntent (intentRow agent req v (H.uuid4 n) (v.now.getD t)) ∈ q₇.done := by
      refine h₇.done _ (hdone rfl _ ?_)
      exact List.mem_append_left _ (List.mem_append_left _ (List.mem_append_right _ List.mem_cons_self))
    refine ⟨hq.trans (h₆.trans h₇), .inr ⟨_, hrow, rfl, rfl, ?_⟩⟩
    · cases hfind : db.intents.find? (fun i => i.intent_id == _) with
      | none => exact .inl rfl
      | some i =>
        exact .inr ⟨⟨db, hdb, List.mem_of_find?_eq_some hfind⟩, by simpa using List.find?_some hfind⟩
  · refine sighted_query fun db q₇ h₇ hdb => ?_
    split
    · next i hfind =>
      have hkey := List.find?_some hfind
      simp only [Bool.and_eq_true, beq_iff_eq] at hkey
      exact ⟨hq.trans (h₆.trans h₇), .inl ⟨⟨db, hdb, List.mem_of_find?_eq_some hfind⟩, hkey.1⟩⟩
    · trivial
  · trivial

theorem mint_sighted (intent : PaymentIntent) :
    (mint_bounded_authorization H intent).Conforms (sighted l) (fun u q' => q.Before q' ∧
      u.intent_id = intent.intent_id ∧ u.agent_id = intent.agent_id ∧ u.org_id = intent.org_id) q :=
  sighted_now fun _ _ h₁ => sighted_stmt (fun _ => nofun) fun _ _ h₂ _ =>
    ⟨h₁.trans h₂, rfl, rfl, rfl⟩

theorem deny_sighted {s : Session} (hs : s.All Write.Logs) {agent : Agent}
    (hagent : q.Acting agent) (req : PaymentIntentRequest) (check : String) (reasons : List String) :
    (deny H s agent req check reasons).Conforms (sighted l) (fun _ _ => True) q :=
  Prog.conforms_seq (record_intent_sighted hs hagent _ _) fun _ _ _ => trivial

/-- A fresh authorization and its transaction are grounded in the intent behind them. -/
theorem minted_grounds {agent : Agent} (hagent : q.Acting agent) {i : PaymentIntent}
    (hi : q.Drawn agent i) {u : BoundedAuthorization} (hu : u.intent_id = i.intent_id ∧
      u.agent_id = i.agent_id ∧ u.org_id = i.org_id) {ws : List Write}
    (hmem : .insertAuthorization u ∈ ws) {x : Write}
    (hx : x = .insertAuthorization u ∨ x = .insertTxn (record_provider_txn u)) :
    q.Grounds l ws x := by
  rcases hx with rfl | rfl
  · exact ⟨agent, i, hagent, hi, hu⟩
  · exact ⟨u, .inl hmem, rfl, rfl, rfl⟩

theorem decide_intent_sighted {s : Session} (hs : s.All Write.Logs) {agent : Agent}
    (hagent : q.Acting agent) (parent : ParentAuthority) (req : PaymentIntentRequest)
    (now : Instant) (d : MandateDecision) :
    (decide_intent H s agent parent req now d).Conforms (sighted l) (fun _ _ => True) q := by
  refine sighted_query fun recent q₁ h₁ _ => ?_
  dsimp only
  split
  · exact Prog.conforms_seq (record_intent_sighted hs (hagent.mono h₁) _ _) fun _ _ _ => trivial
  · refine Prog.conforms_seq (record_intent_sighted hs (hagent.mono h₁) _ _) fun i q₂ hi => ?_
    refine Prog.conforms_seq (mint_sighted i) fun u q₃ hu => sighted_audit fun e q₄ h₄ => ?_
    refine sighted_commit (fun x hx => ?_) fun _ _ _ => trivial
    simp only [List.cons_append, List.nil_append, List.mem_cons, List.not_mem_nil, or_false] at hx
    have hq := hu.1.trans h₄
    have hminted := @minted_grounds l q₄ agent (hagent.mono (h₁.trans (hi.1.trans hq))) i
      (hi.2.mono hq) u hu.2
    rcases hx with rfl | rfl | rfl
    · exact hminted List.mem_cons_self (.inl rfl)
    · exact hminted List.mem_cons_self (.inr rfl)
    · trivial

theorem submit_payment_intent_sighted (ctx : RequestContext) (req : PaymentIntentRequest) :
    (submit_payment_intent H ctx req).Conforms (sighted l) (fun _ _ => True) q := by
  refine sighted_authenticated fun a q₁ _ hagent hs => ?_
  dsimp only
  split
  · trivial
  refine sighted_now fun now q₂ h₂ => sighted_query fun existing q₃ h₃ _ => ?_
  split
  · exact sighted_query fun _ _ _ _ => trivial
  refine sighted_query fun db q₄ h₄ _ => ?_
  have hagent := hagent.mono (h₂.trans (h₃.trans h₄))
  split
  · exact deny_sighted hs hagent _ _ _
  split
  · exact deny_sighted hs hagent _ _ _
  split
  · trivial
  · exact deny_sighted hs hagent _ _ _
  split
  · trivial
  · refine sighted_bind_writes (fun x hx q ws => grounds_logs hx ws)
      (evaluate_mandate_writes hs _ _ _ _) fun r q₅ h₅ hr => ?_
    have hagent := hagent.mono h₅
    dsimp only
    split
    · exact deny_sighted hr hagent _ _ _
    split
    · exact deny_sighted hr hagent _ _ _
    split
    · exact deny_sighted hr hagent _ _ _
    · exact decide_intent_sighted hr hagent _ _ _ _

theorem request_mfa_challenge_sighted (ctx : RequestContext) (req : MFAChallengeRequest) :
    (request_mfa_challenge H ctx req).Conforms (sighted l) (fun _ _ => True) q := by
  refine sighted_query fun db q₁ _ hdb => ?_
  split
  · trivial
  next i hi =>
  have hintent : q₁.Intent i := ⟨db, hdb, List.mem_of_find?_eq_some hi⟩
  refine sighted_authenticated fun a q₂ h₂ _ hs => ?_
  dsimp only
  split
  · trivial
  refine sighted_now fun now q₃ h₃ => sighted_fresh fun n q₄ h₄ => sighted_fresh fun n' q₅ h₅ => ?_
  refine sighted_commit (fun x hx => ?_) fun _ _ _ => trivial
  rcases List.mem_append.mp hx with hx | hx
  · exact grounds_logs (hs x hx) _
  · simp only [List.mem_cons, List.not_mem_nil, or_false] at hx
    rcases hx with rfl | rfl
    · trivial
    · exact ⟨i, hintent.mono (h₂.trans (h₃.trans (h₄.trans h₅))), rfl, rfl⟩

theorem verify_mfa_challenge_sighted (req : MFAVerifyRequest) :
    (verify_mfa_challenge H req).Conforms (sighted l) (fun _ _ => True) q := by
  refine sighted_query fun db q₁ _ hdb => ?_
  split
  · trivial
  next i hi =>
  obtain ⟨hfind, -⟩ := Option.filter_eq_some_iff.mp hi
  have hintent : q₁.Intent i := ⟨db, hdb, List.mem_of_find?_eq_some hfind⟩
  refine sighted_query fun db₂ q₂ h₂ _ => sighted_now fun now q₃ h₃ => ?_
  split
  · trivial
  refine sighted_query fun db₄ q₄ h₄ hdb₄ => ?_
  split
  · trivial
  next agent ha =>
  refine sighted_query fun db₅ q₅ h₅ hdb₅ => ?_
  split
  · trivial
  next parent hp =>
  have hagent : q₅.Acting agent := acting_of_find (h₅.seen _ hdb₄) hdb₅ ha hp
  have hid : i.agent_id = agent.agent_id := by
    obtain ⟨hfound, -⟩ := Option.filter_eq_some_iff.mp ha
    have hkey : agent.agent_id = i.agent_id := by simpa using List.find?_some hfound
    exact hkey.symm
  have hdrawn : q₅.Drawn agent i :=
    .inl ⟨hintent.mono (h₂.trans (h₃.trans (h₄.trans h₅))), hid⟩
  split
  · trivial
  · trivial
  refine Prog.conforms_seq (mint_sighted _) fun u q₆ hu => ?_
  refine sighted_audit fun e q₇ h₇ => sighted_audit fun e' q₈ h₈ => ?_
  have hq := hu.1.trans (h₇.trans h₈)
  have hminted := @minted_grounds l q₈ agent (hagent.mono hq) _ (hdrawn.mono hq) u hu.2
  refine sighted_commit (fun x hx => ?_) fun _ _ _ => trivial
  simp only [List.cons_append, List.nil_append, List.mem_cons, List.not_mem_nil, or_false] at hx
  rcases hx with rfl | rfl | rfl | rfl | rfl | rfl
  · trivial
  · trivial
  · exact hminted (by simp) (.inl rfl)
  · exact hminted (by simp) (.inr rfl)
  · trivial
  · trivial

/-! ### Settlement -/

/-- The writes of what settles without minting: logs, and updates of transactions. -/
def Write.Turns (x : Write) : Prop := x.Logs ∨ ∃ l c, x = .updateTxn l c

theorem spares_turns : Spares Write.Turns where
  logs _ h := .inl h
  moved l c _ := .inr ⟨l, c, rfl⟩
  kept l c _ := .inr ⟨l, c, rfl⟩

theorem grounds_turns {x : Write} (h : x.Turns) (q : Sight) (ws : List Write) :
    q.Grounds l ws x := by
  rcases h with h | ⟨l, c, rfl⟩
  · exact grounds_logs h ws
  · trivial

theorem sighted_of_turns {p : Handler α} (hp : p.Writes Write.Turns fun _ => True) :
    p.Conforms (sighted l) (fun _ _ => True) q :=
  Prog.conforms_mono (fun _ _ _ => trivial) (sighted_of_writes (fun _ => grounds_turns) hp)

theorem consume_authorization_sighted (ctx : RequestContext) (id token : String) :
    (consume_authorization H ctx id token).Conforms (sighted l) (fun _ _ => True) q := by
  refine sighted_query fun db q₁ _ hdb => ?_
  split
  · trivial
  next auth hauth =>
  have hread : q₁.Authorization auth := ⟨db, hdb, List.mem_of_find?_eq_some hauth⟩
  refine sighted_authenticated fun a q₂ h₂ _ hs => ?_
  refine sighted_reads (revalidate_execution_reads H auth) fun r q₃ h₃ _ => ?_
  cases r with
  | error e => trivial
  | ok agent =>
  have hreserve : ∀ ws, Stmt.reserve id .consume ≠ .commit ws := fun _ => nofun
  refine sighted_stmt hreserve fun w q₄ h₄ _ => ?_
  show Prog.Conforms _ _ (if !w.reservable id then _ else _ : Handler Reply) _
  split
  · exact sighted_stmt (fun _ => nofun) fun _ _ _ _ => trivial
  refine sighted_query fun txn q₅ h₅ _ => ?_
  have hread := hread.mono (h₂.trans (h₃.trans (h₄.trans h₅)))
  refine sighted_commit (fun x hx => ?_) fun q₆ _ _ => ?_
  · rcases List.mem_append.mp hx with hx | hx
    · exact grounds_logs (hs x hx) _
    · unfold countAttempt at hx
      split at hx
      · obtain rfl := List.mem_singleton.mp hx
        trivial
      · simp only [List.mem_cons, List.not_mem_nil, or_false] at hx
        rcases hx with rfl | rfl
        · exact ⟨auth, .inr hread, rfl, rfl, rfl⟩
        · trivial
  refine sighted_query fun _ q₇ _ _ => sighted_query fun _ q₈ _ _ => sighted_of_turns ?_
  exact execute_writes ⟨fun l c _ => .inr ⟨l, c, rfl⟩, fun e _ => .inl (Write.logs_audit e)⟩

/-! ### Every request -/

/-- The registration route that leaves the organization out. -/
def Request.legacy : Request → Bool
  | .register_agent _ => true
  | _ => false

/-- The requests whose writes rest on nothing. -/
def Request.bare : Request → Bool
  | .reject_parent _ _ | .revoke_parent _ _ | .rotate_parent_key _ _ _ | .revoke_mandate _ _ _
  | .bind_mandate _ _ _ | .sweep _ => true
  | _ => false

theorem Request.Allows.grounds {r : Request} (hr : r.bare = true) {x : Write} (h : r.Allows x)
    (q : Sight) (ws : List Write) : q.Grounds l ws x := by
  rcases h with h | h
  · exact grounds_logs h ws
  · cases r <;> simp only [Request.bare, Bool.false_eq_true] at hr <;> cases x <;>
      simp_all [Request.mayWrite, Sight.Grounds]

theorem register_parent_sighted (req : ParentRegistrationRequest) :
    (register_parent H req).Conforms (sighted l) (fun _ _ => True) q := by
  unfold register_parent
  split
  · trivial
  split
  · trivial
  split
  · trivial
  refine sighted_fresh fun id q₁ _ => sighted_fresh fun n q₂ _ => ?_
  refine sighted_commit (fun x hx => ?_) fun _ _ _ => trivial
  obtain rfl := List.mem_singleton.mp hx
  exact rfl

/-- **Every request commits only what is grounded in what it has read and done.** -/
theorem handler_sighted (H : Host) (r : Request) :
    (handler H r).Conforms (sighted r.legacy) (fun _ _ => True) Sight.empty := by
  have hbare : r.bare = true → (handler H r).Conforms (sighted r.legacy) (fun _ _ => True)
      Sight.empty := fun hr =>
    Prog.conforms_mono (fun _ _ _ => trivial)
      (sighted_of_writes (fun x hx q ws => Request.Allows.grounds hr hx q ws) (handler_writes H r))
  cases r with
  | register_parent req => exact register_parent_sighted req
  | approve_parent id key => exact approve_parent_sighted id key
  | register_agent req => exact register_agent_sighted req
  | v1_register_agent envelope => exact v1_register_agent_sighted envelope
  | rotate_agent_key id req key => exact rotate_agent_key_sighted id req key
  | revoke_agent id req key => exact revoke_agent_sighted id req key
  | create_mandate req key => exact create_mandate_sighted req key
  | submit_intent ctx req => exact submit_payment_intent_sighted ctx req
  | mfa_challenge ctx req => exact request_mfa_challenge_sighted ctx req
  | mfa_verify req => exact verify_mfa_challenge_sighted req
  | consume ctx id token => exact consume_authorization_sighted ctx id token
  | revoke_authorization ctx id token =>
    exact sighted_of_turns (Handler.writes_mono (fun x hx => .inl hx.logs)
      (revoke_authorization_writes ctx id token))
  | webhook raw signature => exact sighted_of_turns (razorpay_webhook_writes spares_turns raw signature)
  | refund ctx id req => exact sighted_of_turns (refund_authorization_writes spares_turns ctx id req)
  | reconcile ctx id token => exact sighted_of_turns (manual_reconcile_writes spares_turns ctx id token)
  | batch n =>
    exact sighted_of_turns (run_batch_writes spares_turns fun l c _ _ _ => .inr ⟨l, c, rfl⟩)
  | _ => exact hbare rfl

end

end Paari
