import Paari.Pairing

/-!
# Whose verdict an authorization rests on

Two submissions with one idempotency key may both look it up before either stores its
intent. The one that loses the insert adopts the stored row and goes on with its own
verdict. `governing` keeps, for every request, the intents it has stored, the rows it has
read and the rows it has adopted; `Agrees` says of a run that what is adopted was stored
with the verdict of the request that adopts it.
-/

namespace Paari

open Atomic

/-! ## Intents over time -/

/-- An intent without what a decision changes. -/
def PaymentIntent.draft (i : PaymentIntent) : PaymentIntent :=
  { i with decision := .deny, mfa_verified := false, reasons := [] }

/-- The agent and the idempotency key an intent was submitted under. -/
def PaymentIntent.slot (i : PaymentIntent) : String × String := (i.agent_id, i.idempotency_key)

/-- The second is the first later on. -/
structure PaymentIntent.Becomes (i i' : PaymentIntent) : Prop where
  draft : i'.draft = i.draft
  allow : i.decision = .allow → i'.decision = .allow

theorem PaymentIntent.Becomes.refl (i : PaymentIntent) : i.Becomes i := ⟨rfl, id⟩

theorem PaymentIntent.Becomes.trans {i j k : PaymentIntent} (h : i.Becomes j) (h' : j.Becomes k) :
    i.Becomes k := ⟨h'.draft.trans h.draft, fun ha => h'.allow (h.allow ha)⟩

theorem draft_id {i i' : PaymentIntent} (h : i'.draft = i.draft) : i'.intent_id = i.intent_id := by
  have hid : i'.draft.intent_id = i.draft.intent_id := by rw [h]
  exact hid

/-- Every intent is still there. -/
def DB.Descends (db db' : DB) : Prop := ∀ i ∈ db.intents, ∃ i' ∈ db'.intents, i.Becomes i'

theorem DB.Descends.refl (db : DB) : db.Descends db := fun i hi => ⟨i, hi, .refl i⟩

theorem DB.Descends.trans {a b c : DB} (h : a.Descends b) (h' : b.Descends c) : a.Descends c := by
  intro i hi
  obtain ⟨j, hj, hij⟩ := h i hi
  obtain ⟨k, hk, hjk⟩ := h' j hj
  exact ⟨k, hk, hij.trans hjk⟩

/-- One intent has an id. -/
theorem DB.Keys.intent_of_id {db : DB} (hk : db.Keys) {i j : PaymentIntent} (hi : i ∈ db.intents)
    (hj : j ∈ db.intents) (hid : i.intent_id = j.intent_id) : i = j :=
  List.inj_on_of_nodup_map hk.intents hi hj hid

/-- The authorization is for exactly what the intent says. -/
structure Copies (u : BoundedAuthorization) (i : PaymentIntent) : Prop where
  id : u.intent_id = i.intent_id
  merchant : u.merchant = i.merchant
  amount : u.amount_minor_units = i.amount_minor_units
  currency : u.currency = i.currency

theorem Copies.of_draft {u : BoundedAuthorization} {i i' : PaymentIntent} (h : Copies u i)
    (hd : i'.draft = i.draft) : Copies u i' := by
  have hfields : ∀ k : PaymentIntent, Copies u k ↔ Copies u k.draft := fun k =>
    ⟨fun h => ⟨h.id, h.merchant, h.amount, h.currency⟩, fun h => ⟨h.id, h.merchant, h.amount, h.currency⟩⟩
  rw [hfields, hd, ← hfields]
  exact h

theorem Copies.of_terms {u v : BoundedAuthorization} {i : PaymentIntent} (h : Copies u i)
    (ht : v.terms = u.terms) : Copies v i := by
  have hfields : ∀ k : BoundedAuthorization, Copies k i ↔ Copies k.terms i := fun k =>
    ⟨fun h => ⟨h.id, h.merchant, h.amount, h.currency⟩, fun h => ⟨h.id, h.merchant, h.amount, h.currency⟩⟩
  rw [hfields, ht, ← hfields]
  exact h

/-- A decision that the write makes is to allow. -/
def Write.Favours (x : Write) : Prop := ∀ id d v rs, x = .decideIntent id d v rs → d = .allow

section
variable {db db' : DB} {x : Write} {ws : List Write}

theorem apply_descends (hx : x.Favours) (h : db.apply x = some db') : db.Descends db' := by
  intro i hi
  rcases apply_intents h with ⟨j, -, heq, -⟩ | ⟨id, d, v, rs, rfl, heq⟩ | heq <;> rw [heq]
  · exact ⟨i, List.mem_append_left _ hi, .refl i⟩
  · refine ⟨_, mem_updateWhere.mpr ⟨i, hi, rfl⟩, ?_⟩
    split
    · exact ⟨rfl, fun _ => hx id d v rs rfl⟩
    · exact .refl i
  · exact ⟨i, hi, .refl i⟩

theorem applyAll_descends (hws : ∀ x ∈ ws, x.Favours) (h : db.applyAll ws = .ok db') :
    db.Descends db' :=
  applyAll_keeps_all (K := fun d => db.Descends d)
    (fun _ _ _ hx hap hd => hd.trans (apply_descends hx hap)) hws h (.refl db)

/-- What a transaction inserts is there after it. -/
theorem applyAll_inserted (hws : ∀ x ∈ ws, x.Favours) (h : db.applyAll ws = .ok db')
    {i : PaymentIntent} (hi : .insertIntent i ∈ ws) : ∃ i' ∈ db'.intents, i.Becomes i' := by
  refine applyAll_brings (J := fun _ => True) (K := fun d => ∃ i' ∈ d.intents, i.Becomes i')
    (fun _ _ _ _ _ _ _ => trivial) (fun d d' hap _ => ?_) (fun d d' y hy hap hK => ?_) hi hws h trivial
  · obtain ⟨rows, hrows, heq⟩ := Option.bind_eq_some_iff.mp hap
    obtain ⟨rfl, -⟩ := insertUnique_eq hrows
    rw [← Option.some.inj heq]
    exact ⟨i, List.mem_append_right _ List.mem_cons_self, .refl i⟩
  · obtain ⟨j, hj, hij⟩ := hK
    obtain ⟨k, hk, hjk⟩ := apply_descends hy hap j hj
    exact ⟨k, hk, hij.trans hjk⟩

/-- What a transaction decides to allow is allowed after it. -/
theorem applyAll_decided (hws : ∀ x ∈ ws, x.Favours) (h : db.applyAll ws = .ok db')
    {i : PaymentIntent} (hi : i ∈ db.intents) {v : Bool} {rs : List String}
    (hd : .decideIntent i.intent_id .allow v rs ∈ ws) :
    ∃ i' ∈ db'.intents, i'.draft = i.draft ∧ i'.decision = .allow := by
  refine applyAll_brings (J := fun d => ∃ i' ∈ d.intents, i'.draft = i.draft)
    (K := fun d => ∃ i' ∈ d.intents, i'.draft = i.draft ∧ i'.decision = .allow)
    (fun d d' y hy _ hap hJ => ?_) (fun d d' hap hJ => ?_) (fun d d' y hy hap hK => ?_) hd hws h
    ⟨i, hi, rfl⟩
  · obtain ⟨j, hj, hij⟩ := hJ
    obtain ⟨k, hk, hjk⟩ := apply_descends hy hap j hj
    exact ⟨k, hk, hjk.draft.trans hij⟩
  · obtain ⟨j, hj, hij⟩ := hJ
    rw [← Option.some.inj hap]
    refine ⟨_, mem_updateWhere.mpr ⟨j, hj, rfl⟩, ?_⟩
    rw [if_pos (beq_iff_eq.mpr (draft_id hij))]
    exact ⟨hij, rfl⟩
  · obtain ⟨j, hj, hij, hallow⟩ := hK
    obtain ⟨k, hk, hjk⟩ := apply_descends hy hap j hj
    exact ⟨k, hk, hjk.draft.trans hij, hjk.allow hallow⟩

/-- A transaction leaves the authorizations it finds and those it inserts. -/
theorem applyAll_authorizations : ∀ {db db' : DB}, db.applyAll ws = .ok db' →
    ∀ u ∈ db'.authorizations, u ∈ db.authorizations ∨ .insertAuthorization u ∈ ws := by
  induction ws with
  | nil =>
    intro db db' h u hu
    rw [← Except.ok.inj h] at hu
    exact .inl hu
  | cons x ws ih =>
    intro db db' h u hu
    obtain ⟨mid, hmid, hrest⟩ := applyAll_cons h
    rcases ih hrest u hu with hu | hu
    · rcases apply_authorizations hmid with ⟨a, rfl, heq, -⟩ | heq <;> rw [heq] at hu
      · rcases List.mem_append.mp hu with hu | hu
        · exact .inl hu
        · obtain rfl := List.mem_singleton.mp hu
          exact .inr List.mem_cons_self
      · exact .inl hu
    · exact .inr (List.mem_cons_of_mem _ hu)

end

/-! ## The discipline -/

/-- The intent a transaction inserts. -/
def insertedIn (ws : List Write) : Option PaymentIntent :=
  ws.findSome? fun | .insertIntent i => some i | _ => none

/-- What a request has to go on: the intent it could not store with its last statement, the
databases it then adopted a row from, all it has read, and all it has committed. -/
structure Docket where
  request : Option Request
  refused : Option PaymentIntent
  adopted : List (PaymentIntent × DB)
  seen : List DB
  done : List Write

namespace Docket

def read (q : Docket) (db : DB) : Docket :=
  { q with
    refused := none
    adopted := q.refused.toList.map (fun i => (i, db)) ++ q.adopted
    seen := db :: q.seen }

/-- The request has read the intent. -/
def Knows (q : Docket) (i : PaymentIntent) : Prop := ∃ db ∈ q.seen, i ∈ db.intents

/-- The row stands for an intent with the verdict: the request has stored it, as it is or
as it was read back, or has adopted the row instead. -/
def Stands (q : Docket) (v : GovernanceDecision) (i : PaymentIntent) : Prop :=
  (∃ i₀, .insertIntent i₀ ∈ q.done ∧ i₀.decision = v ∧
    (i = i₀ ∨ q.Knows i ∧ i.intent_id = i₀.intent_id)) ∨
  ∃ i₀ db, (i₀, db) ∈ q.adopted ∧ i₀.decision = v ∧ i ∈ db.intents ∧ i.slot = i₀.slot

/-- The parent of the agent has signed the intent over a challenge. -/
def Signed (H : Host) (q : Docket) (i : PaymentIntent) : Prop :=
  ∃ req agent parent challenge, q.request = some (.mfa_verify req) ∧
    (∃ db ∈ q.seen, agent ∈ db.agents) ∧ agent.agent_id = i.agent_id ∧
    (∃ db ∈ q.seen, parent ∈ db.parents) ∧ parent.id = agent.parent_pk ∧
    H.verify_signature parent.public_key_pem (context_to_sign H challenge i)
      req.parent_signature_b64 = some true

/-- The intent is what the request asks for. -/
def Proposes (q : Docket) (i : PaymentIntent) : Prop :=
  ∃ ctx req, q.request = some (.submit_intent ctx req) ∧ i.merchant = req.merchant ∧
    i.amount_minor_units = req.amount_minor_units ∧ i.currency = req.currency

/-- What a request may commit. -/
structure Allows (H : Host) (q : Docket) (ws : List Write) : Prop where
  favours : ∀ x ∈ ws, x.Favours
  inserts : ∀ i, .insertIntent i ∈ ws → q.Proposes i
  decides : ∀ id d v rs, .decideIntent id d v rs ∈ ws →
    ∃ i, q.Knows i ∧ i.intent_id = id ∧ q.Signed H i
  mints : ∀ u, .insertAuthorization u ∈ ws → u.authorization_id = u.intent_id ∧ ∃ i, Copies u i ∧
    (q.Stands .allow i ∨ q.Knows i ∧ ∃ v rs, .decideIntent i.intent_id .allow v rs ∈ ws)

/-- After a commit. -/
def after (q : Docket) (ws : List Write) (accepted : Bool) : Docket :=
  if accepted then { q with refused := none, done := ws ++ q.done }
  else { q with refused := insertedIn ws }

/-- The second is the first later on. -/
structure Later (q q' : Docket) : Prop where
  request : q'.request = q.request
  adopted : q.adopted ⊆ q'.adopted
  seen : q.seen ⊆ q'.seen
  done : q.done ⊆ q'.done

theorem Later.refl (q : Docket) : q.Later q :=
  ⟨rfl, List.Subset.refl _, List.Subset.refl _, List.Subset.refl _⟩

theorem Later.trans {a b c : Docket} (h : a.Later b) (h' : b.Later c) : a.Later c :=
  ⟨h'.request.trans h.request, List.Subset.trans h.adopted h'.adopted,
    List.Subset.trans h.seen h'.seen, List.Subset.trans h.done h'.done⟩

theorem later_read (q : Docket) (db : DB) : q.Later (q.read db) :=
  ⟨rfl, List.subset_append_right _ _, List.subset_cons_self _ _, List.Subset.refl _⟩

theorem later_after (q : Docket) (ws : List Write) (accepted : Bool) :
    q.Later (q.after ws accepted) := by
  unfold after
  split
  · exact ⟨rfl, List.Subset.refl _, List.Subset.refl _, List.subset_append_right _ _⟩
  · exact ⟨rfl, List.Subset.refl _, List.Subset.refl _, List.Subset.refl _⟩

section
variable {q q' : Docket} (h : q.Later q')
include h

theorem Knows.mono {i : PaymentIntent} (hi : q.Knows i) : q'.Knows i := by
  obtain ⟨db, hdb, hmem⟩ := hi
  exact ⟨db, h.seen hdb, hmem⟩

theorem Stands.mono {v : GovernanceDecision} {i : PaymentIntent} (hi : q.Stands v i) :
    q'.Stands v i := by
  rcases hi with ⟨i₀, hdone, hv, hrow⟩ | ⟨i₀, db, hadopted, hv, hmem, hslot⟩
  · exact .inl ⟨i₀, h.done hdone, hv, hrow.imp_right fun hk => ⟨hk.1.mono h, hk.2⟩⟩
  · exact .inr ⟨i₀, db, h.adopted hadopted, hv, hmem, hslot⟩

end

end Docket

/-- Handlers that commit only what their docket bears out. -/
def governing (H : Host) : Protocol World Stmt Call Answer Docket where
  stmt q s w q' := match s with
    | .commit ws => q.Allows H ws ∧ q' = q.after ws (w.accepts ws)
    | .select => q' = q.read w.db
    | _ => q' = q
  call q _ _ q' := q' = q

section
variable {H : Host} {α β : Type} {Post : β → Docket → Prop} {q : Docket}

theorem governing_query {f : DB → α} {k : α → Handler β}
    (h : ∀ db q', q.Later q' → db ∈ q'.seen → (k (f db)).Conforms (governing H) Post q') :
    (Handler.query f >>= k).Conforms (governing H) Post q :=
  fun w => ⟨_, rfl, h w.db _ (q.later_read w.db) List.mem_cons_self⟩

theorem governing_now {k : Instant → Handler β}
    (h : ∀ t q', q.Later q' → (k t).Conforms (governing H) Post q') :
    (Handler.now >>= k).Conforms (governing H) Post q :=
  fun w => ⟨_, rfl, h w.clock _ (q.later_read w.db)⟩

theorem governing_fresh {k : Nat → Handler β} (h : ∀ n, (k n).Conforms (governing H) Post q) :
    (Handler.fresh >>= k).Conforms (governing H) Post q := fun w => ⟨q, rfl, h w.next⟩

theorem governing_audit {s : Session} {a : AuditArgs} {k : Session → Handler β}
    (h : ∀ e q', q.Later q' → (k (s ++ [.insertAudit e])).Conforms (governing H) Post q') :
    (record_audit H s a >>= k).Conforms (governing H) Post q :=
  fun w => ⟨_, rfl, h _ _ (q.later_read w.db)⟩

theorem governing_commit {ws : Session} {k : Unit → Handler β} (hws : q.Allows H ws)
    (h : ∀ q', q.Later q' → (∀ x ∈ ws, x ∈ q'.done) → (k ()).Conforms (governing H) Post q') :
    (Handler.commit ws >>= k).Conforms (governing H) Post q := by
  refine Handler.conforms_commit fun w =>
    ⟨q.after ws (w.accepts ws), ⟨hws, rfl⟩, fun db hdb => ?_⟩
  rw [accepts_ok hdb]
  exact h _ (q.later_after ws true) fun x => List.mem_append_left _

theorem governing_tryCommit {ws : Session} {k : Except Write Unit → Handler β}
    (hws : q.Allows H ws)
    (hok : ∀ q', q.Later q' → (∀ x ∈ ws, x ∈ q'.done) →
      (k (.ok ())).Conforms (governing H) Post q')
    (herror : ∀ x q', q.Later q' → q'.refused = insertedIn ws →
      (k (.error x)).Conforms (governing H) Post q') :
    (Handler.tryCommit ws >>= k).Conforms (governing H) Post q := by
  intro w
  refine ⟨_, ⟨hws, rfl⟩, ?_⟩
  show (k ((w.db.applyAll ws).map fun _ => ())).Conforms (governing H) Post
    (q.after ws (w.accepts ws))
  cases hdb : w.db.applyAll ws with
  | ok db' =>
    rw [accepts_ok hdb]
    exact hok _ (q.later_after ws true) fun x => List.mem_append_left _
  | error y =>
    rw [accepts_error hdb]
    exact herror y _ (q.later_after ws false) rfl

/-- The row that a refused request adopts. -/
theorem governing_adopt {f : DB → α} {k : α → Handler β} {i : PaymentIntent}
    (hi : q.refused = some i)
    (h : ∀ db q', q.Later q' → (i, db) ∈ q'.adopted → (k (f db)).Conforms (governing H) Post q') :
    (Handler.query f >>= k).Conforms (governing H) Post q := by
  refine fun w => ⟨_, rfl, h w.db _ (q.later_read w.db) ?_⟩
  unfold Docket.read
  rw [hi]
  exact List.mem_cons_self

theorem Write.Logs.favours {x : Write} (h : x.Logs) : x.Favours := by
  rintro id d v rs rfl
  rcases h with ⟨e, he⟩ | ⟨p, hp⟩
  · exact absurd he nofun
  · exact absurd hp nofun

theorem Docket.Allows.of_logs {ws : List Write} (hws : ∀ x ∈ ws, x.Logs) : q.Allows H ws where
  favours x hx := (hws x hx).favours
  inserts i hi := by
    rcases hws _ hi with ⟨e, he⟩ | ⟨p, hp⟩
    · exact absurd he nofun
    · exact absurd hp nofun
  decides id d v rs hd := by
    rcases hws _ hd with ⟨e, he⟩ | ⟨p, hp⟩
    · exact absurd he nofun
    · exact absurd hp nofun
  mints u hu := by
    rcases hws _ hu with ⟨e, he⟩ | ⟨p, hp⟩
    · exact absurd he nofun
    · exact absurd hp nofun

/-- Parts that only write logs. -/
theorem governing_of_writes {R : α → Prop} {p : Handler α} :
    ∀ {q : Docket}, p.Writes Write.Logs R →
      p.Conforms (governing H) (fun a q' => q.Later q' ∧ R a) q := by
  induction p with
  | ret a => intro q h; exact ⟨.refl q, h⟩
  | halt => intro q _; trivial
  | stmt s k ih =>
    intro q h w
    obtain ⟨_, hs, hk⟩ := h w
    cases s with
    | commit ws =>
      refine ⟨_, ⟨.of_logs (hs ws rfl), rfl⟩, Prog.conforms_mono (fun a q' h => ?_) (ih w hk)⟩
      exact ⟨(q.later_after ws (w.accepts ws)).trans h.1, h.2⟩
    | select =>
      refine ⟨_, rfl, Prog.conforms_mono (fun a q' h => ?_) (ih w hk)⟩
      exact ⟨(q.later_read w.db).trans h.1, h.2⟩
    | _ => exact ⟨q, rfl, ih w hk⟩
  | call c k ih =>
    intro q h a
    obtain ⟨_, _, hk⟩ := h a
    exact ⟨q, rfl, ih a hk⟩

theorem governing_bind_writes {R : α → Prop} {p : Handler α} {k : α → Handler β}
    (hp : p.Writes Write.Logs R)
    (hk : ∀ a q', q.Later q' → R a → (k a).Conforms (governing H) Post q') :
    (p >>= k).Conforms (governing H) Post q :=
  Prog.conforms_seq (governing_of_writes hp) fun a q' h => hk a q' h.1 h.2

theorem governing_reads {R : α → Prop} {p : Handler α} {k : α → Handler β} (hp : p.Reads R)
    (hk : ∀ a q', q.Later q' → R a → (k a).Conforms (governing H) Post q') :
    (p >>= k).Conforms (governing H) Post q :=
  governing_bind_writes (Handler.writes_mono (fun _ h => h.elim) (Handler.writes_of_reads hp)) hk

/-! ## The handlers -/

/-- The request asks for this payment. -/
def Docket.Asks (q : Docket) (req : PaymentIntentRequest) : Prop :=
  ∃ ctx req₀, q.request = some (.submit_intent ctx req₀) ∧ req.merchant = req₀.merchant ∧
    req.amount_minor_units = req₀.amount_minor_units ∧ req.currency = req₀.currency

theorem Docket.Asks.mono {q q' : Docket} (h : q.Later q') {req : PaymentIntentRequest}
    (hreq : q.Asks req) : q'.Asks req := by
  obtain ⟨ctx, req₀, hr, hrest⟩ := hreq
  exact ⟨ctx, req₀, h.request.trans hr, hrest⟩

/-- The answer reports a decision that the request has read or stored. -/
def Docket.Reports (q : Docket) (r : PaymentIntentResponse) : Prop :=
  (∃ i, q.Knows i ∧ i.intent_id = r.intent_id ∧ i.decision.value = r.decision) ∨
  (∃ i v, q.Stands v i ∧ i.intent_id = r.intent_id ∧ v.value = r.decision) ∨
  ∃ v rs, .decideIntent r.intent_id .allow v rs ∈ q.done ∧ r.decision = "allow"

def Answered (reply : Reply) (q : Docket) : Prop := ∀ r, reply = .intent r → q.Reports r

theorem answered_error {reply : Reply} (h : ∃ x, reply = .error x) : Answered reply q := by
  obtain ⟨e, rfl⟩ := h
  exact fun r hr => absurd hr nofun

theorem answered_stands {i : PaymentIntent} {v : GovernanceDecision} (h : q.Stands v i)
    {r : PaymentIntentResponse} (hid : i.intent_id = r.intent_id) (hv : v.value = r.decision) :
    Answered (.intent r) q := by
  intro r' hr
  obtain rfl := Reply.intent.inj hr
  exact .inr (.inl ⟨i, v, h, hid, hv⟩)

theorem governing_authenticated {k : Authenticated → Handler Reply} {ctx : RequestContext}
    {token : String} {expected : Option String}
    (hk : ∀ a q', q.Later q' → a.pending.All Write.Logs →
      (k a).Conforms (governing H) Answered q') :
    (Handler.attempt (pure (resolve_session_token H token ctx.authorization)) fun token =>
      Handler.attempt (authenticate H ctx token expected) k).Conforms (governing H) Answered q := by
  cases htoken : resolve_session_token H token ctx.authorization with
  | error e => exact answered_error (resolve_session_token_error htoken)
  | ok token =>
    show (Handler.attempt (authenticate H ctx token expected) k).Conforms _ _ _
    refine governing_reads (authenticate_raises H ctx token expected) fun r q' hq hr => ?_
    cases r with
    | error e => exact answered_error (hr.2 e rfl)
    | ok a =>
      refine hk a q' hq fun x hx => ?_
      obtain ⟨p, rfl⟩ := hr.1 a rfl x hx
      exact .inr ⟨p, rfl⟩

theorem recorded_writes {s : Session} (hs : s.All Write.Logs) (i : PaymentIntent)
    (e e' : AuditEvent) : ∀ x ∈ s ++ [.insertIntent i] ++ [.insertAudit e] ++ [.insertAudit e'],
      x.Logs ∨ x = .insertIntent i := by
  intro x hx
  simp only [List.append_assoc, List.mem_append, List.mem_singleton] at hx
  rcases hx with hx | rfl | rfl | rfl
  · exact .inl (hs x hx)
  · exact .inr rfl
  · exact .inl (Write.logs_audit e)
  · exact .inl (Write.logs_audit e')

theorem insertedIn_alone {ws : List Write} {i : PaymentIntent} (hmem : .insertIntent i ∈ ws)
    (hws : ∀ x ∈ ws, x.Logs ∨ x = .insertIntent i) : insertedIn ws = some i := by
  unfold insertedIn
  cases hfind : ws.findSome? fun | .insertIntent i => some i | _ => none with
  | none => exact absurd (List.findSome?_eq_none_iff.mp hfind _ hmem) nofun
  | some j =>
    obtain ⟨x, hx, hj⟩ := List.exists_of_findSome?_eq_some hfind
    rcases hws x hx with (⟨e, rfl⟩ | ⟨p, rfl⟩) | rfl
    · exact absurd hj nofun
    · exact absurd hj nofun
    · exact hj.symm

theorem Docket.Allows.alone {ws : List Write} {i : PaymentIntent} (hi : q.Proposes i)
    (hws : ∀ x ∈ ws, x.Logs ∨ x = .insertIntent i) : q.Allows H ws := by
  refine ⟨fun x hx => ?_, fun j hj => ?_, fun id d v rs hd => ?_, fun u hu => ?_⟩
  · rcases hws x hx with hlogs | rfl
    · exact hlogs.favours
    · exact fun _ _ _ _ => nofun
  · rcases hws _ hj with (⟨e, he⟩ | ⟨p, hp⟩) | heq
    · exact absurd he nofun
    · exact absurd hp nofun
    · rw [Write.insertIntent.inj heq]
      exact hi
  · rcases hws _ hd with (⟨e, he⟩ | ⟨p, hp⟩) | heq
    · exact absurd he nofun
    · exact absurd hp nofun
    · exact absurd heq nofun
  · rcases hws _ hu with (⟨e, he⟩ | ⟨p, hp⟩) | heq
    · exact absurd he nofun
    · exact absurd hp nofun
    · exact absurd heq nofun

/-- The row that `_record_intent` returns stands for its verdict. -/
theorem record_intent_governing {s : Session} (hs : s.All Write.Logs) {agent : Agent}
    {req : PaymentIntentRequest} (hreq : q.Asks req) (v : Verdict) :
    (record_intent H s agent req v).Conforms (governing H)
      (fun i q' => q.Later q' ∧ q'.Stands v.decision i) q := by
  refine governing_now fun t q₁ h₁ => governing_fresh fun n => governing_query fun db q₂ h₂ _ => ?_
  refine governing_audit fun e q₃ h₃ => governing_audit fun e' q₄ h₄ => ?_
  have hq : q.Later q₄ := h₁.trans (h₂.trans (h₃.trans h₄))
  have hmem : .insertIntent (intentRow agent req v (H.uuid4 n) (v.now.getD t)) ∈
      s ++ [.insertIntent (intentRow agent req v (H.uuid4 n) (v.now.getD t))] ++
        [.insertAudit e] ++ [.insertAudit e'] := by
    simp
  have hws : ∀ x ∈ s ++ [.insertIntent (intentRow agent req v (H.uuid4 n) (v.now.getD t))] ++
      [.insertAudit e] ++ [.insertAudit e'], x.Logs ∨
        x = .insertIntent (intentRow agent req v (H.uuid4 n) (v.now.getD t)) :=
    recorded_writes hs _ e e'
  have hprop : q₄.Proposes (intentRow agent req v (H.uuid4 n) (v.now.getD t)) := hreq.mono hq
  refine governing_tryCommit (.alone hprop hws) (fun q₅ h₅ hdone => ?_) fun x q₅ h₅ hrefused => ?_
  · refine governing_query fun db' q₆ h₆ hdb' => ⟨hq.trans (h₅.trans h₆),
      .inl ⟨intentRow agent req v (H.uuid4 n) (v.now.getD t), ?_, rfl, ?_⟩⟩
    · exact h₆.done (hdone _ hmem)
    · cases hrow : db'.intents.find? (fun i => i.intent_id == _) with
      | none => exact .inl rfl
      | some i =>
        have hkey := List.find?_some hrow
        exact .inr ⟨⟨db', hdb', List.mem_of_find?_eq_some hrow⟩, beq_iff_eq.mp hkey⟩
  · rw [insertedIn_alone hmem hws] at hrefused
    split
    · next heq => exact absurd heq nofun
    · refine governing_adopt hrefused fun db' q₆ h₆ hadopted => ?_
      split
      · next i hfind =>
        have hkey := List.find?_some hfind
        simp only [Bool.and_eq_true, beq_iff_eq] at hkey
        refine ⟨hq.trans (h₅.trans h₆), .inr ⟨_, db', hadopted, rfl, ?_, ?_⟩⟩
        · exact List.mem_of_find?_eq_some hfind
        · exact Prod.ext hkey.1 hkey.2
      · trivial
    · trivial

theorem mint_governing (intent : PaymentIntent) :
    (mint_bounded_authorization H intent).Conforms (governing H) (fun u q' => q.Later q' ∧
      u.authorization_id = u.intent_id ∧ Copies u intent) q :=
  governing_now fun _ q₁ h₁ => fun w =>
    ⟨_, rfl, h₁.trans (q₁.later_read w.db), rfl, rfl, rfl, rfl, rfl⟩

theorem deny_governing {s : Session} (hs : s.All Write.Logs) {agent : Agent}
    {req : PaymentIntentRequest} (hreq : q.Asks req) (check : String) (reasons : List String) :
    (deny H s agent req check reasons).Conforms (governing H) Answered q :=
  Prog.conforms_seq (record_intent_governing hs hreq _) fun _ _ hi =>
    answered_stands hi.2 rfl rfl

theorem decide_intent_governing {s : Session} (hs : s.All Write.Logs) {agent : Agent}
    (parent : ParentAuthority) {req : PaymentIntentRequest} (hreq : q.Asks req) (now : Instant)
    (d : MandateDecision) :
    (decide_intent H s agent parent req now d).Conforms (governing H) Answered q := by
  refine governing_query fun recent q₁ h₁ _ => ?_
  have hreq := hreq.mono h₁
  dsimp only
  split
  · exact Prog.conforms_seq (record_intent_governing hs hreq _) fun _ _ hi =>
      answered_stands hi.2 rfl rfl
  · refine Prog.conforms_seq (record_intent_governing hs hreq _) fun i q₂ hi => ?_
    refine Prog.conforms_seq (mint_governing i) fun u q₃ hu => governing_audit fun e q₄ h₄ => ?_
    have hstands := hi.2.mono (hu.1.trans h₄)
    refine governing_commit ⟨fun x hx => ?_, fun j hj => ?_, fun id d v rs hd => ?_, fun u' hu' => ?_⟩
      fun q₅ h₅ _ => answered_stands (hstands.mono h₅) rfl rfl
    · simp only [List.cons_append, List.nil_append, List.mem_cons, List.not_mem_nil, or_false] at hx
      rcases hx with rfl | rfl | rfl <;> exact fun _ _ _ _ => nofun
    · exact absurd hj (by simp)
    · exact absurd hd (by simp)
    · have heq : u' = u := by simpa using hu'
      rw [heq]
      exact ⟨hu.2.1, i, hu.2.2, .inl hstands⟩

theorem submit_payment_intent_governing {ctx : RequestContext} {req : PaymentIntentRequest}
    (hq : q.request = some (.submit_intent ctx req)) :
    (submit_payment_intent H ctx req).Conforms (governing H) Answered q := by
  refine governing_authenticated fun a q₁ h₁ hs => ?_
  dsimp only
  split
  · exact answered_error ⟨_, rfl⟩
  refine governing_now fun now q₂ h₂ => governing_query fun db q₃ h₃ hdb => ?_
  split
  · next existing hfind =>
    refine governing_query fun db' q₄ h₄ _ => ?_
    intro r hr
    obtain rfl := Reply.intent.inj hr
    exact .inl ⟨existing, ⟨db, h₄.seen hdb, List.mem_of_find?_eq_some hfind⟩, rfl, rfl⟩
  refine governing_query fun db₄ q₄ h₄ _ => ?_
  have hreq : ∀ id, q₄.Asks { req with mandate_id := id, llm := req.llm.normalize H } := fun id =>
    ⟨ctx, req, (h₁.trans (h₂.trans (h₃.trans h₄))).request.trans hq, rfl, rfl, rfl⟩
  split
  · exact deny_governing hs (hreq none) _ _
  split
  · exact deny_governing hs (hreq none) _ _
  split
  · trivial
  · exact deny_governing hs (hreq none) _ _
  split
  · exact answered_error ⟨_, rfl⟩
  · refine governing_bind_writes (evaluate_mandate_writes hs _ _ _ _) fun r q₅ h₅ hr => ?_
    dsimp only
    split
    · exact deny_governing hr ((hreq none).mono h₅) _ _
    split
    · exact deny_governing hr ((hreq none).mono h₅) _ _
    split
    · exact deny_governing hr ((hreq none).mono h₅) _ _
    · exact decide_intent_governing hr _ ((hreq _).mono h₅) _ _

theorem verify_mfa_challenge_governing {req : MFAVerifyRequest}
    (hq : q.request = some (.mfa_verify req)) :
    (verify_mfa_challenge H req).Conforms (governing H) Answered q := by
  refine governing_query fun db₁ q₁ h₁ hdb₁ => ?_
  split
  · exact answered_error ⟨_, rfl⟩
  next i hi =>
  obtain ⟨hfind, -⟩ := Option.filter_eq_some_iff.mp hi
  refine governing_query fun db₂ q₂ h₂ _ => governing_now fun now q₃ h₃ => ?_
  split
  · exact answered_error ⟨_, rfl⟩
  next challenge _ =>
  refine governing_query fun db₄ q₄ h₄ hdb₄ => ?_
  split
  · exact answered_error ⟨_, rfl⟩
  next agent ha =>
  obtain ⟨hagent, -⟩ := Option.filter_eq_some_iff.mp ha
  refine governing_query fun db₅ q₅ h₅ hdb₅ => ?_
  split
  · exact answered_error ⟨_, rfl⟩
  next parent hp =>
  obtain ⟨hparent, -⟩ := Option.filter_eq_some_iff.mp hp
  split
  · trivial
  · exact answered_error ⟨_, rfl⟩
  next hsigned =>
  refine Prog.conforms_seq (mint_governing _) fun u q₆ hu => ?_
  refine governing_audit fun e q₇ h₇ => governing_audit fun e' q₈ h₈ => ?_
  have h₅₈ : q₅.Later q₈ := hu.1.trans (h₇.trans h₈)
  have hall : q.Later q₈ := h₁.trans (h₂.trans (h₃.trans (h₄.trans (h₅.trans h₅₈))))
  have hknows : q₈.Knows i := .mono (h₂.trans (h₃.trans (h₄.trans (h₅.trans h₅₈))))
    ⟨db₁, hdb₁, List.mem_of_find?_eq_some hfind⟩
  have hsign : q₈.Signed H i := by
    refine ⟨req, agent, parent, challenge, hall.request.trans hq, ?_, ?_, ?_, ?_, hsigned⟩
    · exact ⟨db₄, (h₅.trans h₅₈).seen hdb₄, List.mem_of_find?_eq_some hagent⟩
    · simpa using List.find?_some hagent
    · exact ⟨db₅, h₅₈.seen hdb₅, List.mem_of_find?_eq_some hparent⟩
    · simpa using List.find?_some hparent
  refine governing_commit ⟨fun x hx => ?_, fun j hj => ?_, fun id d v rs hd => ?_, fun u' hu' => ?_⟩
    fun q₉ h₉ hdone => ?_
  · simp only [List.cons_append, List.nil_append, List.mem_cons, List.not_mem_nil, or_false] at hx
    rcases hx with rfl | rfl | rfl | rfl | rfl | rfl
    · exact fun _ _ _ _ => nofun
    · exact fun _ _ _ _ heq => (Write.decideIntent.inj heq).2.1.symm
    · exact fun _ _ _ _ => nofun
    · exact fun _ _ _ _ => nofun
    · exact fun _ _ _ _ => nofun
    · exact fun _ _ _ _ => nofun
  · exact absurd hj (by simp)
  · simp at hd
    exact ⟨i, hknows, hd.1.symm, hsign⟩
  · have heq : u' = u := by simpa using hu'
    rw [heq]
    refine ⟨hu.2.1, i, hu.2.2.of_draft rfl, .inr ⟨hknows, true, i.reasons ++ [STEP_UP_REASON], ?_⟩⟩
    exact List.mem_cons_of_mem _ List.mem_cons_self
  · intro r hr
    obtain rfl := Reply.intent.inj hr
    refine .inr (.inr ⟨true, i.reasons ++ [STEP_UP_REASON], hdone _ ?_, rfl⟩)
    exact List.mem_cons_of_mem _ List.mem_cons_self

/-- The requests that decide on intents. -/
def Request.decides : Request → Bool
  | .submit_intent _ _ | .mfa_verify _ => true
  | _ => false

/-- **Every request that decides keeps the discipline.** -/
theorem handler_governing {r : Request} (hr : r.decides = true) (hq : q.request = some r) :
    (handler H r).Conforms (governing H) Answered q := by
  cases r with
  | submit_intent ctx req => exact submit_payment_intent_governing hq
  | mfa_verify req => exact verify_mfa_challenge_governing hq
  | _ => exact absurd hr Bool.false_ne_true

end

/-! ## The run -/

/-- The intent that the request could not store with its last statement. -/
def beaten (j : Nat) (tr : List (Event World Stmt Call Answer)) : Option PaymentIntent :=
  tr.foldl (fun refused ev => match ev with
    | .stmt i (.commit ws) w => if i = j then (if w.accepts ws then none else insertedIn ws) else refused
    | .stmt i .select _ => if i = j then none else refused
    | _ => refused) none

/-- A request that adopts a row, because the row has the key of the intent it could not
store, finds its own verdict there. -/
def Agrees (tr : List (Event World Stmt Call Answer)) (ev : Event World Stmt Call Answer) : Prop :=
  ∀ j w i, ev = .stmt j .select w → beaten j tr = some i →
    ∀ i' ∈ w.db.intents, i'.slot = i.slot → i'.decision = i.decision

/-- The same, as it can be computed. -/
def agreed (tr : List (Event World Stmt Call Answer)) : Event World Stmt Call Answer → Bool
  | .stmt j .select w => (beaten j tr).all fun i => w.db.intents.all fun i' =>
      decide (i'.slot = i.slot → i'.decision = i.decision)
  | _ => true

theorem agrees_iff {tr : List (Event World Stmt Call Answer)}
    {ev : Event World Stmt Call Answer} : Agrees tr ev ↔ agreed tr ev = true := by
  constructor
  · intro h
    unfold agreed
    split
    · next j w =>
      cases hi : beaten j tr with
      | none => rfl
      | some i =>
        refine List.all_eq_true.mpr fun i' hi' => decide_eq_true ?_
        exact h j w i rfl hi i' hi'
    · rfl
  · rintro h j w i rfl hi i' hi'
    unfold agreed at h
    dsimp only at h
    rw [hi] at h
    exact of_decide_eq_true (List.all_eq_true.mp h i' hi')

instance (tr : List (Event World Stmt Call Answer)) (ev : Event World Stmt Call Answer) :
    Decidable (Agrees tr ev) := decidable_of_iff _ agrees_iff.symm

/-- Why an intent is allowed: it was when the run started; or a submission that asked for
just this payment stored it so; or the parent of its agent has signed it. -/
inductive Vouched (H : Host) (reqs : List Request) (start : DB)
    (tr : List (Event World Stmt Call Answer)) (i : PaymentIntent) : Prop
  | before (i₀ : PaymentIntent) (stored : i₀ ∈ start.intents) (allowed : i₀.decision = .allow)
      (same : i.draft = i₀.draft)
  | evaluated (j : Nat) (ctx : RequestContext) (req : PaymentIntentRequest) (i₀ : PaymentIntent)
      (request : reqs[j]? = some (.submit_intent ctx req))
      (stored : .insertIntent i₀ ∈ committedBy j tr) (allowed : i₀.decision = .allow)
      (same : i.draft = i₀.draft) (merchant : i₀.merchant = req.merchant)
      (amount : i₀.amount_minor_units = req.amount_minor_units)
      (currency : i₀.currency = req.currency)
  | signed (j : Nat) (req : MFAVerifyRequest) (w w' : World) (agent : Agent)
      (parent : ParentAuthority) (challenge : MFAChallenge)
      (request : reqs[j]? = some (.mfa_verify req))
      (read : .stmt j .select w ∈ tr) (stored : agent ∈ w.db.agents)
      (named : agent.agent_id = i.agent_id)
      (read' : .stmt j .select w' ∈ tr) (stored' : parent ∈ w'.db.parents)
      (owner : parent.id = agent.parent_pk)
      (signature : H.verify_signature parent.public_key_pem (context_to_sign H challenge i)
        req.parent_signature_b64 = some true)

/-- What a request answers is what it has read, or what it has stored. -/
def Stored (tr : List (Event World Stmt Call Answer)) (j : Nat) (r : PaymentIntentResponse) : Prop :=
  (∃ w, .stmt j .select w ∈ tr ∧ ∃ i ∈ w.db.intents, i.intent_id = r.intent_id ∧
    i.decision.value = r.decision) ∨
  (∃ i, .insertIntent i ∈ committedBy j tr ∧ i.intent_id = r.intent_id ∧
    i.decision.value = r.decision) ∨
  ∃ v rs, .decideIntent r.intent_id .allow v rs ∈ committedBy j tr ∧ r.decision = "allow"

section
variable {H : Host} {reqs : List Request} {start : DB} {tr : List (Event World Stmt Call Answer)}
  {ev : Event World Stmt Call Answer} {i i' : PaymentIntent} {j : Nat}

theorem committedBy_mono {x : Write} (h : x ∈ committedBy j tr) : x ∈ committedBy j (tr ++ [ev]) := by
  unfold committedBy at h ⊢
  rw [List.flatMap_append]
  exact List.mem_append_left _ h

theorem Vouched.later (h : Vouched H reqs start tr i) : Vouched H reqs start (tr ++ [ev]) i := by
  cases h with
  | before i₀ stored allowed same => exact .before i₀ stored allowed same
  | evaluated j ctx req i₀ request stored allowed same merchant amount currency =>
    exact .evaluated j ctx req i₀ request (committedBy_mono stored) allowed same merchant amount
      currency
  | signed j req w w' agent parent challenge request read stored named read' stored' owner sig =>
    exact .signed j req w w' agent parent challenge request (List.mem_append_left _ read) stored
      named (List.mem_append_left _ read') stored' owner sig

theorem Vouched.of_draft (h : Vouched H reqs start tr i) (hd : i'.draft = i.draft) :
    Vouched H reqs start tr i' := by
  cases h with
  | before i₀ stored allowed same => exact .before i₀ stored allowed (hd.trans same)
  | evaluated j ctx req i₀ request stored allowed same merchant amount currency =>
    exact .evaluated j ctx req i₀ request stored allowed (hd.trans same) merchant amount currency
  | signed j req w w' agent parent challenge request read stored named read' stored' owner sig =>
    have hid : i'.draft.agent_id = i.draft.agent_id := by rw [hd]
    have hctx : context_to_sign H challenge i' = context_to_sign H challenge i := by
      show context_to_sign H challenge i'.draft = context_to_sign H challenge i.draft
      rw [hd]
    exact .signed j req w w' agent parent challenge request read stored (named.trans hid.symm) read'
      stored' owner (by rw [hctx]; exact sig)

theorem beaten_quiet (h : ∀ i w, ev ≠ .stmt i .select w) (h' : ∀ i ws w, ev ≠ .stmt i (.commit ws) w) :
    beaten j (tr ++ [ev]) = beaten j tr := by
  unfold beaten
  rw [List.foldl_append]
  show (match ev with
    | .stmt i (.commit ws) w => _
    | .stmt i .select _ => _
    | _ => _) = _
  split
  · exact absurd rfl (h' _ _ _)
  · exact absurd rfl (h _ _)
  · rfl

theorem beaten_select {i : Nat} {w : World} : beaten j (tr ++ [.stmt i .select w]) =
    if i = j then none else beaten j tr := by
  unfold beaten
  rw [List.foldl_append]
  rfl

theorem beaten_commit {i : Nat} {ws : List Write} {w : World} :
    beaten j (tr ++ [.stmt i (.commit ws) w]) =
      if i = j then (if w.accepts ws then none else insertedIn ws) else beaten j tr := by
  unfold beaten
  rw [List.foldl_append]
  rfl

end

/-- What is known of one request: what it has read was stored and still is, what it has
committed it has committed, and what it has adopted carries its verdict. -/
structure Docket.Sound (q : Docket) (reqs : List Request) (db : DB) (j : Nat)
    (tr : List (Event World Stmt Call Answer)) : Prop where
  request : q.request = reqs[j]?
  refused : q.refused = beaten j tr
  seen : ∀ db₀ ∈ q.seen, db₀.Descends db ∧ ∃ w, .stmt j .select w ∈ tr ∧ w.db = db₀
  done : ∀ x ∈ q.done, x ∈ committedBy j tr
  inserted : ∀ i, .insertIntent i ∈ q.done → ∃ i' ∈ db.intents, i.Becomes i'
  adopted : ∀ p ∈ q.adopted, p.2 ∈ q.seen ∧
    ∀ i ∈ p.2.intents, i.slot = p.1.slot → i.decision = p.1.decision

/-- What holds while requests decide: every authorization copies an allowed intent, and
every allowed intent is vouched for. -/
structure Governing (H : Host) (reqs : List Request) (start db : DB) (qs : Nat → Docket)
    (tr : List (Event World Stmt Call Answer)) : Prop where
  keys : db.Keys
  filed : ∀ u ∈ db.authorizations, u.authorization_id = u.intent_id
  covered : ∀ u ∈ db.authorizations, ∃ i ∈ db.intents, Copies u i ∧ i.decision = .allow
  vouched : ∀ i ∈ db.intents, i.decision = .allow → Vouched H reqs start tr i
  sound : ∀ j, (qs j).Sound reqs db j tr

section
variable {H : Host} {reqs : List Request} {start db db' : DB} {w : World} {q : Docket}
  {qs : Nat → Docket} {tr : List (Event World Stmt Call Answer)}
  {ev : Event World Stmt Call Answer} {i j : Nat} {ws : List Write}

namespace Docket.Sound

theorem onward (h : q.Sound reqs db j tr) (hev : beaten j (tr ++ [ev]) = beaten j tr)
    (hdb : db.Descends db') : q.Sound reqs db' j (tr ++ [ev]) where
  request := h.request
  refused := h.refused.trans hev.symm
  seen db₀ hdb₀ := by
    obtain ⟨hdesc, w, hw, heq⟩ := h.seen db₀ hdb₀
    exact ⟨hdesc.trans hdb, w, List.mem_append_left _ hw, heq⟩
  done x hx := committedBy_mono (h.done x hx)
  inserted k hk := by
    obtain ⟨k', hk', hbecomes⟩ := h.inserted k hk
    obtain ⟨k'', hk'', hbecomes'⟩ := hdb k' hk'
    exact ⟨k'', hk'', hbecomes.trans hbecomes'⟩
  adopted := h.adopted

theorem knows (h : q.Sound reqs db j tr) {k : PaymentIntent} (hk : q.Knows k) :
    ∃ k' ∈ db.intents, k.Becomes k' := by
  obtain ⟨db₀, hdb₀, hmem⟩ := hk
  exact (h.seen db₀ hdb₀).1 k hmem

/-- A row that stands for a verdict is there, and allowed if the verdict is. -/
theorem stands (h : q.Sound reqs db j tr) (hkeys : db.Keys) {v : GovernanceDecision}
    {k : PaymentIntent} (hk : q.Stands v k) :
    ∃ k' ∈ db.intents, k'.draft = k.draft ∧ (v = .allow → k'.decision = .allow) := by
  rcases hk with ⟨k₀, hdone, rfl, rfl | ⟨hknows, hid⟩⟩ | ⟨k₀, db₀, hadopted, rfl, hmem, hslot⟩
  · obtain ⟨k', hk', hbecomes⟩ := h.inserted k hdone
    exact ⟨k', hk', hbecomes.draft, hbecomes.allow⟩
  · -- the row that was stored and the row that was read back are one
    obtain ⟨k', hk', hbecomes⟩ := h.inserted k₀ hdone
    obtain ⟨k'', hk'', hbecomes'⟩ := h.knows hknows
    have hsame : k'' = k' := hkeys.intent_of_id hk'' hk'
      ((draft_id hbecomes'.draft).trans (hid.trans (draft_id hbecomes.draft).symm))
    refine ⟨k', hk', ?_, hbecomes.allow⟩
    rw [← hsame]
    exact hbecomes'.draft
  · obtain ⟨hseen, hagrees⟩ := h.adopted _ hadopted
    obtain ⟨k', hk', hbecomes⟩ := (h.seen db₀ hseen).1 k hmem
    exact ⟨k', hk', hbecomes.draft, fun hv => hbecomes.allow ((hagrees k hmem hslot).trans hv)⟩

/-- What the request reports was stored. -/
theorem stored (h : q.Sound reqs db j tr) {r : PaymentIntentResponse} (hr : q.Reports r) :
    Stored tr j r := by
  have hknown : ∀ k, q.Knows k → k.intent_id = r.intent_id → k.decision.value = r.decision →
      Stored tr j r := by
    rintro k ⟨db₀, hdb₀, hmem⟩ hid hv
    obtain ⟨-, w, hw, rfl⟩ := h.seen db₀ hdb₀
    exact .inl ⟨w, hw, k, hmem, hid, hv⟩
  rcases hr with ⟨k, hk, hid, hv⟩ | ⟨k, v, hk, hid, hv⟩ | ⟨v, rs, hdone, hv⟩
  · exact hknown k hk hid hv
  · rcases hk with ⟨k₀, hdone, rfl, hrow⟩ | ⟨k₀, db₀, hadopted, rfl, hmem, hslot⟩
    · have hid₀ : k₀.intent_id = r.intent_id := by
        rcases hrow with rfl | ⟨-, hsame⟩
        · exact hid
        · exact hsame.symm.trans hid
      exact .inr (.inl ⟨k₀, h.done _ hdone, hid₀, hv⟩)
    · obtain ⟨hseen, hagrees⟩ := h.adopted _ hadopted
      exact hknown k ⟨db₀, hseen, hmem⟩ hid (by rw [hagrees k hmem hslot]; exact hv)
  · exact .inr (.inr ⟨v, rs, h.done _ hdone, hv⟩)

/-- The request reads, and adopts what agrees with it. -/
theorem read (h : q.Sound reqs w.db j tr) (hok : Agrees tr (.stmt j .select w)) :
    (q.read w.db).Sound reqs w.db j (tr ++ [.stmt j .select w]) where
  request := h.request
  refused := by
    rw [beaten_select, if_pos rfl]
    rfl
  seen db₀ hdb₀ := by
    rcases List.mem_cons.mp hdb₀ with rfl | hdb₀
    · exact ⟨.refl _, w, List.mem_append_right _ List.mem_cons_self, rfl⟩
    · obtain ⟨hdesc, w', hw', heq⟩ := h.seen db₀ hdb₀
      exact ⟨hdesc, w', List.mem_append_left _ hw', heq⟩
  done x hx := committedBy_mono (h.done x hx)
  inserted := h.inserted
  adopted p hp := by
    rcases List.mem_append.mp hp with hp | hp
    · obtain ⟨k, hk, rfl⟩ := List.mem_map.mp hp
      have hbeaten : beaten j tr = some k := h.refused.symm.trans (Option.mem_toList.mp hk)
      exact ⟨List.mem_cons_self, hok j w k rfl hbeaten⟩
    · obtain ⟨hseen, hagrees⟩ := h.adopted p hp
      exact ⟨List.mem_cons_of_mem _ hseen, hagrees⟩

/-- The request commits. -/
theorem commit (h : q.Sound reqs w.db j tr) (hws : q.Allows H ws)
    (hdb : w.db.applyAll ws = .ok db') :
    (q.after ws true).Sound reqs db' j (tr ++ [.stmt j (.commit ws) w]) where
  request := h.request
  refused := by
    rw [beaten_commit, if_pos rfl, if_pos (accepts_ok hdb)]
    rfl
  seen db₀ hdb₀ := by
    obtain ⟨hdesc, w', hw', heq⟩ := h.seen db₀ hdb₀
    exact ⟨hdesc.trans (applyAll_descends hws.favours hdb), w', List.mem_append_left _ hw', heq⟩
  done x hx := by
    rw [@committedBy_self tr (.stmt j (.commit ws) w) j rfl, written_ok hdb]
    rcases List.mem_append.mp hx with hx | hx
    · exact List.mem_append_right _ hx
    · exact List.mem_append_left _ (h.done x hx)
  inserted k hk := by
    rcases List.mem_append.mp hk with hk | hk
    · exact applyAll_inserted hws.favours hdb hk
    · obtain ⟨k', hk', hbecomes⟩ := h.inserted k hk
      obtain ⟨k'', hk'', hbecomes'⟩ := applyAll_descends hws.favours hdb k' hk'
      exact ⟨k'', hk'', hbecomes.trans hbecomes'⟩
  adopted := h.adopted

end Docket.Sound

namespace Governing

theorem initially (hkeys : db.Keys) (hfiled : ∀ u ∈ db.authorizations, u.authorization_id = u.intent_id)
    (hcovered : ∀ u ∈ db.authorizations, ∃ i ∈ db.intents, Copies u i ∧ i.decision = .allow) :
    Governing H reqs db db (fun j => ⟨reqs[j]?, none, [], [], []⟩) [] where
  keys := hkeys
  filed := hfiled
  covered := hcovered
  vouched i hi hallow := .before i hi hallow rfl
  sound _ := ⟨rfl, rfl, fun _ h => absurd h List.not_mem_nil, fun _ h => absurd h List.not_mem_nil,
    fun _ h => absurd h List.not_mem_nil, fun _ h => absurd h List.not_mem_nil⟩

/-- A step that changes no more than usage counts. -/
theorem still (h : Governing H reqs start db qs tr) (hdb : Uses db db')
    (hev : ∀ j, i ≠ j → beaten j (tr ++ [ev]) = beaten j tr) {q' : Docket}
    (hq : q'.Sound reqs db' i (tr ++ [ev])) :
    Governing H reqs start db' (Function.update qs i q') (tr ++ [ev]) := by
  have hkeys := (keys_stable fun _ => True).uses hdb h.keys
  obtain ⟨as, hterms, rfl⟩ := hdb
  have hold : ∀ u ∈ as, ∃ v ∈ db.authorizations, v.terms = u.terms := by
    intro u hu
    have hmem : u.terms ∈ db.authorizations.map BoundedAuthorization.terms :=
      hterms ▸ List.mem_map_of_mem hu
    exact List.mem_map.mp hmem
  refine ⟨hkeys, fun u hu => ?_, fun u hu => ?_, fun k hk hallow => (h.vouched k hk hallow).later, ?_⟩
  · obtain ⟨v, hv, heq⟩ := hold u hu
    have hid : v.terms.authorization_id = u.terms.authorization_id := by rw [heq]
    have hid' : v.terms.intent_id = u.terms.intent_id := by rw [heq]
    exact hid.symm.trans ((h.filed v hv).trans hid')
  · obtain ⟨v, hv, heq⟩ := hold u hu
    obtain ⟨k, hk, hcopies, hallow⟩ := h.covered v hv
    exact ⟨k, hk, hcopies.of_terms heq.symm, hallow⟩
  · refine (Function.forall_update_iff qs fun j q => q.Sound reqs _ j (tr ++ [ev])).mpr
      ⟨hq, fun j hj => ?_⟩
    exact (h.sound j).onward (hev j hj.symm) (.refl db)

/-- A commit that goes through: what it mints copies an allowed intent, and what it allows is
vouched for. -/
theorem commit (h : Governing H reqs start w.db qs tr) (hws : (qs i).Allows H ws)
    (hdb : w.db.applyAll ws = .ok db') :
    Governing H reqs start db' (Function.update qs i ((qs i).after ws true))
      (tr ++ [.stmt i (.commit ws) w]) := by
  have hkeys : db'.Keys :=
    applyAll_keeps_all (P := fun _ => True) (fun _ _ _ _ hap hk => apply_keys hap hk)
      (fun _ _ => trivial) hdb h.keys
  have hdesc := applyAll_descends hws.favours hdb
  have hwritten : ∀ x ∈ ws, x ∈ committedBy i (tr ++ [.stmt i (.commit ws) w]) := by
    intro x hx
    rw [@committedBy_self tr (.stmt i (.commit ws) w) i rfl, written_ok hdb]
    exact List.mem_append_right _ hx
  refine ⟨hkeys, fun u hu => ?_, fun u hu => ?_, fun k hk hallow => ?_, ?_⟩
  · rcases applyAll_authorizations hdb u hu with hu | hu
    · exact h.filed u hu
    · exact (hws.mints u hu).1
  · rcases applyAll_authorizations hdb u hu with hu | hu
    · obtain ⟨k, hk, hcopies, hallow⟩ := h.covered u hu
      obtain ⟨k', hk', hbecomes⟩ := hdesc k hk
      exact ⟨k', hk', hcopies.of_draft hbecomes.draft, hbecomes.allow hallow⟩
    · obtain ⟨-, k, hcopies, hstands | ⟨hknows, v, rs, hdecided⟩⟩ := hws.mints u hu
      · obtain ⟨k₁, hk₁, hdraft, hallow⟩ := (h.sound i).stands h.keys hstands
        obtain ⟨k₂, hk₂, hbecomes⟩ := hdesc k₁ hk₁
        exact ⟨k₂, hk₂, hcopies.of_draft (hbecomes.draft.trans hdraft), hbecomes.allow (hallow rfl)⟩
      · obtain ⟨k₁, hk₁, hbecomes⟩ := (h.sound i).knows hknows
        rw [← draft_id hbecomes.draft] at hdecided
        obtain ⟨k₂, hk₂, hdraft, hallow⟩ := applyAll_decided hws.favours hdb hk₁ hdecided
        exact ⟨k₂, hk₂, hcopies.of_draft (hdraft.trans hbecomes.draft), hallow⟩
  · rcases applyAll_allowed hallow hdb hk with ⟨k₀, hk₀, hallow₀, hid⟩ | ⟨x, hx, hid⟩
    · obtain ⟨k₁, hk₁, hbecomes⟩ := hdesc k₀ hk₀
      have hsame : k = k₁ := hkeys.intent_of_id hk hk₁ (hid.symm.trans (draft_id hbecomes.draft).symm)
      exact (h.vouched k₀ hk₀ hallow₀).later.of_draft (hsame ▸ hbecomes.draft)
    · cases x with
      | insertIntent k₀ =>
        obtain ⟨ctx, req, hreq, hmerchant, hamount, hcurrency⟩ := hws.inserts k₀ hx
        obtain ⟨k₁, hk₁, hbecomes⟩ := applyAll_inserted hws.favours hdb hx
        have hallow₀ : k₀.decision = .allow := by
          by_contra hne
          rw [show (Write.insertIntent k₀).allows = none from if_neg hne] at hid
          exact absurd hid nofun
        rw [show (Write.insertIntent k₀).allows = some k₀.intent_id from if_pos hallow₀] at hid
        have hsame : k = k₁ := hkeys.intent_of_id hk hk₁
          ((Option.some.inj hid).symm.trans (draft_id hbecomes.draft).symm)
        exact .evaluated i ctx req k₀ ((h.sound i).request.symm.trans hreq) (hwritten _ hx) hallow₀
          (hsame ▸ hbecomes.draft) hmerchant hamount hcurrency
      | decideIntent id d v rs =>
        obtain rfl := hws.favours _ hx id d v rs rfl
        obtain ⟨k₀, hknows, hid₀, req, agent, parent, challenge, hreq, ⟨db₁, hdb₁, hagent⟩, hnamed,
          ⟨db₂, hdb₂, hparent⟩, howner, hsig⟩ := hws.decides id _ v rs hx
        obtain ⟨k₁, hk₁, hbecomes⟩ := (h.sound i).knows hknows
        obtain ⟨k₂, hk₂, hbecomes'⟩ := hdesc k₁ hk₁
        have hall := hbecomes.trans hbecomes'
        have hsame : k = k₂ := hkeys.intent_of_id hk hk₂
          ((Option.some.inj hid).symm.trans (hid₀.symm.trans (draft_id hall.draft).symm))
        obtain ⟨-, w₁, hw₁, rfl⟩ := (h.sound i).seen db₁ hdb₁
        obtain ⟨-, w₂, hw₂, rfl⟩ := (h.sound i).seen db₂ hdb₂
        have hsigned : Vouched H reqs start (tr ++ [.stmt i (.commit ws) w]) k₀ :=
          .signed i req w₁ w₂ agent parent challenge ((h.sound i).request.symm.trans hreq)
            (List.mem_append_left _ hw₁) hagent hnamed (List.mem_append_left _ hw₂) hparent howner hsig
        exact hsigned.of_draft (hsame ▸ hall.draft)
      | _ => exact absurd hid nofun
  · refine (Function.forall_update_iff qs fun j q =>
      q.Sound reqs db' j (tr ++ [.stmt i (.commit ws) w])).mpr ⟨?_, fun j hj => ?_⟩
    · exact (h.sound i).commit hws hdb
    · refine (h.sound j).onward ?_ hdesc
      rw [beaten_commit, if_neg hj.symm]

theorem stmt {s : Stmt} {q' : Docket} (h : Governing H reqs start w.db qs tr)
    (hok : Agrees tr (.stmt i s w)) (hs : (governing H).stmt (qs i) s w q') :
    Governing H reqs start (w.exec i s).db (Function.update qs i q') (tr ++ [.stmt i s w]) := by
  have hquiet : (∀ ws, s ≠ .commit ws) → s ≠ .select → q' = qs i →
      Governing H reqs start (w.exec i s).db (Function.update qs i q') (tr ++ [.stmt i s w]) := by
    intro hcommit hselect hq
    have hev : ∀ j, beaten j (tr ++ [.stmt i s w]) = beaten j tr := fun j =>
      beaten_quiet (fun _ _ heq => hselect (Event.stmt.inj heq).2.1)
        fun _ ws _ heq => hcommit ws (Event.stmt.inj heq).2.1
    have huses := uses_exec hcommit w i
    rw [hq]
    refine h.still huses (fun j _ => hev j) ((h.sound i).onward (hev i) ?_)
    obtain ⟨as, -, heq⟩ := huses
    rw [heq]
    exact .refl w.db
  cases s with
  | select =>
    obtain rfl := hs
    refine h.still ⟨_, rfl, rfl⟩ (fun j hj => ?_) ((h.sound i).read hok)
    rw [beaten_select, if_neg hj]
  | fresh => exact hquiet (fun _ => nofun) nofun hs
  | rollback => exact hquiet (fun _ => nofun) nofun hs
  | try_gate g => exact hquiet (fun _ => nofun) nofun hs
  | reserve id spend => exact hquiet (fun _ => nofun) nofun hs
  | commit ws =>
    obtain ⟨hws, rfl⟩ := hs
    show Governing H reqs start (w.commit i ws).db _ _
    unfold World.commit
    cases hdb : w.db.applyAll ws with
    | ok db' =>
      rw [accepts_ok hdb]
      exact h.commit hws hdb
    | error x =>
      have hsound := h.sound i
      have huses := uses_rollback w i
      have hdesc : w.db.Descends (w.rollback i).db := by
        obtain ⟨as, -, heq⟩ := huses
        rw [heq]
        exact .refl w.db
      have hbeaten : ∀ j, beaten j (tr ++ [.stmt i (.commit ws) w]) =
          if i = j then insertedIn ws else beaten j tr := by
        intro j
        rw [beaten_commit, accepts_error hdb]
        rfl
      rw [accepts_error hdb]
      refine h.still huses (fun j hj => (hbeaten j).trans (if_neg hj)) ?_
      refine ⟨hsound.request, ((hbeaten i).trans (if_pos rfl)).symm, fun db₀ hdb₀ => ?_,
        fun x hx => committedBy_mono (hsound.done x hx), fun k hk => ?_, hsound.adopted⟩
      · obtain ⟨hdesc₀, w', hw', heq⟩ := hsound.seen db₀ hdb₀
        exact ⟨hdesc₀.trans hdesc, w', List.mem_append_left _ hw', heq⟩
      · obtain ⟨k', hk', hbecomes⟩ := hsound.inserted k hk
        obtain ⟨k'', hk'', hbecomes'⟩ := hdesc k' hk'
        exact ⟨k'', hk'', hbecomes.trans hbecomes'⟩

end Governing

end

/-- **An authorization rests on its own intent's verdict.** However submissions and step-ups
interleave, fail or die, as long as a request that adopts a stored intent finds its own
verdict there: every authorization copies a stored intent that is allowed and vouched for,
an intent that is not allowed has none, a key has one intent and one authorization at most,
and every answer reports a decision that was stored. -/
theorem authorization_provenance {H : Host} {reqs : List Request}
    (hreqs : ∀ r ∈ reqs, r.decides = true) {w : World} (hkeys : w.db.Keys)
    (hfiled : ∀ u ∈ w.db.authorizations, u.authorization_id = u.intent_id)
    (hcovered : ∀ u ∈ w.db.authorizations, ∃ i ∈ w.db.intents, Copies u i ∧ i.decision = .allow)
    {c : Pool World Stmt Call Answer Reply}
    (h : Pool.Reach machine Agrees (Pool.start w (reqs.map (handler H))) c) :
    (∀ u ∈ c.store.db.authorizations, ∃ i ∈ c.store.db.intents, Copies u i ∧ i.decision = .allow ∧
      Vouched H reqs w.db c.trace i) ∧
    (∀ i ∈ c.store.db.intents, i.decision ≠ .allow → ∀ u ∈ c.store.db.authorizations,
      u.intent_id ≠ i.intent_id) ∧
    (c.store.db.intents.map PaymentIntent.slot).Nodup ∧
    (c.store.db.authorizations.map BoundedAuthorization.intent_id).Nodup ∧
    ∀ (j : Nat) r, c.threads[j]? = some (.ret (.intent r)) → Stored c.trace j r := by
  have hfollows : (Pool.start w (reqs.map (handler H))).Follows (governing H) (fun _ => Answered)
      fun j => ⟨reqs[j]?, none, [], [], []⟩ := by
    intro j p hp
    simp only [Pool.start, List.getElem?_map, Option.map_eq_some_iff] at hp
    obtain ⟨r, hr, rfl⟩ := hp
    exact handler_governing (hreqs r (List.mem_of_getElem? hr)) hr
  have hquiet : ∀ (w' : World) qs tr i ev, Governing H reqs w.db w'.db qs tr →
      (∀ i w, ev ≠ .stmt i .select w) → (∀ i ws w, ev ≠ .stmt i (.commit ws) w) →
      ∀ w'' : World, Uses w'.db w''.db →
        Governing H reqs w.db w''.db (Function.update qs i (qs i)) (tr ++ [ev]) := by
    intro w' qs tr i ev hJ hselect hcommit w'' huses
    have hev : ∀ j, beaten j (tr ++ [ev]) = beaten j tr := fun j => beaten_quiet hselect hcommit
    refine hJ.still huses (fun j _ => hev j) ((hJ.sound i).onward (hev i) ?_)
    obtain ⟨as, -, heq⟩ := huses
    rw [heq]
    exact .refl w'.db
  obtain ⟨qs, hJ, hf⟩ := Pool.sim (J := fun w' qs tr => Governing H reqs w.db w'.db qs tr)
    (fun _ _ _ _ _ _ hJ hok hs => hJ.stmt hok hs)
    (fun w' qs tr i c a q' hJ _ hc => by
      obtain rfl := hc
      exact hquiet w' qs tr i (.call i c a w') hJ (by simp) (by simp) w'
        ⟨_, rfl, rfl⟩)
    (fun w' qs tr i wait hJ _ _ => ⟨_, hquiet w' qs tr i (.died i wait) hJ (by simp)
      (by simp) _ (uses_rollback w' i)⟩)
    (fun _ _ _ _ hJ => hJ) (Governing.initially hkeys hfiled hcovered) hfollows h
  have hids : c.store.db.authorizations.map BoundedAuthorization.intent_id =
      c.store.db.authorizations.map BoundedAuthorization.authorization_id :=
    List.map_congr_left fun u hu => (hJ.filed u hu).symm
  refine ⟨fun u hu => ?_, fun i hi hdeny u hu hid => ?_, hJ.keys.slots, ?_, fun j r hret => ?_⟩
  · obtain ⟨i, hi, hcopies, hallow⟩ := hJ.covered u hu
    exact ⟨i, hi, hcopies, hallow, hJ.vouched i hi hallow⟩
  · obtain ⟨k, hk, hcopies, hallow⟩ := hJ.covered u hu
    have hsame : i = k := hJ.keys.intent_of_id hi hk (hid.symm.trans hcopies.id)
    exact hdeny (hsame ▸ hallow)
  · rw [hids]
    exact hJ.keys.authorizations
  · have hanswered : Answered (.intent r) (qs j) := hf j _ hret
    exact (hJ.sound j).stored (hanswered r rfl)

namespace Sample

/-- Two submissions with one idempotency key, of different amounts. -/
def clashing (amount : Int) : List Request :=
  [.submit_intent ctx proposal, .submit_intent ctx { proposal with amount_minor_units := amount }]

/-- The first looks the key up and decides; the second goes through before it stores. -/
def clashed (amount : Int) : Pool World Stmt Call Answer Reply :=
  (Pool.start (capable "make_payment") ((clashing amount).map (handler (host false [])))).run machine
    (List.replicate 16 (.run 0 (.ok .null)) ++ List.replicate 30 (.run 1 (.ok .null)) ++
      List.replicate 12 (.run 0 (.ok .null)))

end Sample

set_option maxRecDepth 4000 in
/-- Both allow their amounts: the first adopts the intent of the second. -/
theorem authorization_provenance_clashed :
    (∀ u ∈ (Sample.clashed 200).store.db.authorizations,
      ∃ i ∈ (Sample.clashed 200).store.db.intents, Copies u i ∧ i.decision = .allow ∧
        Vouched (Sample.host false []) (Sample.clashing 200) (Sample.capable "make_payment").db
          (Sample.clashed 200).trace i) ∧
    (∀ i ∈ (Sample.clashed 200).store.db.intents, i.decision ≠ .allow →
      ∀ u ∈ (Sample.clashed 200).store.db.authorizations, u.intent_id ≠ i.intent_id) ∧
    ((Sample.clashed 200).store.db.intents.map PaymentIntent.slot).Nodup ∧
    ((Sample.clashed 200).store.db.authorizations.map BoundedAuthorization.intent_id).Nodup ∧
    ∀ (j : Nat) r, (Sample.clashed 200).threads[j]? = some (.ret (.intent r)) →
      Stored (Sample.clashed 200).trace j r := by
  have hagrees : Pool.Throughout Agrees (Sample.clashed 200).trace :=
    Pool.throughout_of_take (by decide +kernel)
  refine @authorization_provenance (Sample.host false []) (Sample.clashing 200) ?_
    (Sample.capable "make_payment") ?_ ?_ ?_ _ ?_
  · intro r hr
    simp only [Sample.clashing, List.mem_cons, List.not_mem_nil, or_false] at hr
    rcases hr with rfl | rfl <;> rfl
  · exact ⟨List.nodup_singleton _, List.nodup_singleton _, List.nodup_nil, List.nodup_nil, List.nodup_nil⟩
  · exact fun _ h => absurd h List.not_mem_nil
  · exact fun _ h => absurd h List.not_mem_nil
  · exact Pool.reach_of_throughout _ _ .start hagrees

set_option maxRecDepth 4000 in
/-- The intent that is stored was denied, and gets an authorization over its amount. -/
theorem denied_intent_authorized :
    Pool.Reach machine Pool.Free (Pool.start (Sample.capable "make_payment")
      ((Sample.clashing 5000).map (handler (Sample.host false [])))) (Sample.clashed 5000) ∧
    ∃ u ∈ (Sample.clashed 5000).store.db.authorizations,
      ∃ i ∈ (Sample.clashed 5000).store.db.intents, Copies u i ∧ i.decision = .deny ∧
        u.amount_minor_units = 5000 := by
  refine ⟨?_, ?_⟩
  · exact Pool.reach_run _ _ _ _ .start
  · exact ⟨_, List.mem_singleton_self _, _, List.mem_singleton_self _, ⟨rfl, rfl, rfl, rfl⟩, rfl, rfl⟩

end Paari
