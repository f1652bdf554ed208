import Paari.Grounds
import Paari.DelegationUse
import Paari.Governance

/-!
# An intent and its authorization

`verify_mfa_challenge` approves an intent, mints its authorization and opens its
transaction in one commit. `submit_payment_intent` does it in two: `_record_intent`
commits the intent by itself, as `ALLOW`, and the authorization follows. `minting` is the
discipline both keep, with the intent a request still owes as its phase. A request that
stops between its two commits leaves the intent behind, and nothing pays the debt later.
-/

namespace Paari

open Atomic

/-! ## Tables -/

/-- The authorizations and the intents they are for. -/
def DB.grants (db : DB) : List (String × String) :=
  db.authorizations.map fun u => (u.authorization_id, u.intent_id)

/-- The transactions, by their authorization, and the intents they carry out. -/
def DB.carriers (db : DB) : List (String × String) :=
  db.txns.map fun t => (t.authorization_id, t.intent_id)

/-- Rows under a unique key, which is the id of the intent. -/
structure Proper (rows : List (String × String)) : Prop where
  keys : (rows.map Prod.fst).Nodup
  named : ∀ g ∈ rows, g.1 = g.2

theorem Proper.snoc {rows : List (String × String)} (h : Proper rows) {g : String × String}
    (hnew : ∀ g' ∈ rows, g'.1 ≠ g.1) (hg : g.1 = g.2) : Proper (rows ++ [g]) := by
  refine ⟨nodup_append_one h.keys hnew, fun g' hg' => ?_⟩
  rcases List.mem_append.mp hg' with hg' | hg'
  · exact h.named g' hg'
  · rw [List.mem_singleton.mp hg']
    exact hg

/-- What has a row has one. -/
theorem Proper.count {rows : List (String × String)} (h : Proper rows) {id : String}
    (hid : id ∈ rows.map Prod.snd) : (rows.map Prod.snd).count id = 1 := by
  have hsame : rows.map Prod.snd = rows.map Prod.fst :=
    List.map_congr_left fun g hg => (h.named g hg).symm
  rw [hsame] at hid ⊢
  exact List.count_eq_one_of_mem h.keys hid

/-- Authorizations and transactions are filed under their intents, and an authorization is
good for some use. -/
structure Filed (db : DB) : Prop where
  authorizations : Proper db.grants
  txns : Proper db.carriers
  usable : ∀ u ∈ db.authorizations, 0 < u.max_usage

/-- The intent has its authorization. -/
def Granted (db : DB) (id : String) : Prop := id ∈ db.grants.map Prod.snd

/-- It has its transaction too. -/
def Paired (db : DB) (id : String) : Prop := Granted db id ∧ id ∈ db.carriers.map Prod.snd

/-- The intent a write leaves allowed. -/
def Write.allows : Write → Option String
  | .insertIntent i => if i.decision = .allow then some i.intent_id else none
  | .decideIntent id .allow _ _ => some id
  | _ => none

/-- The row a write files keeps to its intent. -/
structure Write.Files (x : Write) : Prop where
  authorization : ∀ u, x = .insertAuthorization u → u.authorization_id = u.intent_id ∧ 0 < u.max_usage
  txn : ∀ t, x = .insertTxn t → t.authorization_id = t.intent_id

section
variable {db db' : DB} {x : Write} {id : String}

theorem apply_grants (h : db.apply x = some db') :
    (∃ u, x = .insertAuthorization u ∧ db'.grants = db.grants ++ [(u.authorization_id, u.intent_id)] ∧
      ∀ g ∈ db.grants, g.1 ≠ u.authorization_id) ∨ db'.grants = db.grants := by
  rcases apply_authorizations h with ⟨u, hx, heq, hnew⟩ | heq
  · refine .inl ⟨u, hx, ?_, fun g hg => ?_⟩
    · unfold DB.grants
      rw [heq, List.map_append]
      rfl
    · obtain ⟨v, hv, rfl⟩ := List.mem_map.mp hg
      exact hnew v hv
  · exact .inr (by rw [DB.grants, heq, DB.grants])

theorem apply_carriers (h : db.apply x = some db') :
    (∃ t, x = .insertTxn t ∧ db'.carriers = db.carriers ++ [(t.authorization_id, t.intent_id)] ∧
      ∀ g ∈ db.carriers, g.1 ≠ t.authorization_id) ∨ db'.carriers = db.carriers := by
  cases x with
  | updateTxn l c =>
    simp only [DB.apply] at h
    split at h
    · exact absurd h (by simp)
    · obtain rfl := Option.some.inj h
      exact .inr (map_updateWhere (fun _ => by rfl) _)
  | insertTxn t =>
    obtain ⟨rows, hrows, heq⟩ := Option.bind_eq_some_iff.mp h
    obtain ⟨rfl, hclash⟩ := insertUnique_eq hrows
    refine .inl ⟨t, rfl, ?_, fun g hg => ?_⟩
    · rw [← Option.some.inj heq]
      simp [DB.carriers]
    · obtain ⟨v, hv, rfl⟩ := List.mem_map.mp hg
      simpa using hclash v hv
  | _ =>
    first
      | exact .inr (by rw [← Option.some.inj h]; rfl)
      | obtain ⟨_, _, hrows⟩ := Option.bind_eq_some_iff.mp h
        exact .inr (by rw [← Option.some.inj hrows]; rfl)

/-- An intent that is allowed was so before, or the write has left it so. -/
theorem apply_allowed (h : db.apply x = some db') {i : PaymentIntent} (hi : i ∈ db'.intents)
    (hallow : i.decision = .allow) :
    (∃ i₀ ∈ db.intents, i₀.decision = .allow ∧ i₀.intent_id = i.intent_id) ∨
      x.allows = some i.intent_id := by
  rcases apply_intents h with ⟨j, rfl, heq, -⟩ | ⟨k, d, v, rs, rfl, heq⟩ | heq <;> rw [heq] at hi
  · rcases List.mem_append.mp hi with hi | hi
    · exact .inl ⟨i, hi, hallow, rfl⟩
    · obtain rfl := List.mem_singleton.mp hi
      exact .inr (if_pos hallow)
  · obtain ⟨i₀, hi₀, rfl⟩ := mem_updateWhere.mp hi
    split at hallow
    · next hid =>
      rw [if_pos hid]
      obtain rfl : d = .allow := hallow
      have hkey : i₀.intent_id = k := by simpa using hid
      exact .inr (congrArg some hkey.symm)
    · next hid =>
      rw [if_neg hid]
      exact .inl ⟨i₀, hi₀, hallow, rfl⟩
  · exact .inl ⟨i, hi, hallow, rfl⟩

theorem applyAll_allowed {ws : List Write} {i : PaymentIntent} (hallow : i.decision = .allow) :
    ∀ {db db' : DB}, db.applyAll ws = .ok db' → i ∈ db'.intents →
      (∃ i₀ ∈ db.intents, i₀.decision = .allow ∧ i₀.intent_id = i.intent_id) ∨
        ∃ x ∈ ws, x.allows = some i.intent_id := by
  induction ws with
  | nil =>
    intro db db' h hi
    rw [← Except.ok.inj h] at hi
    exact .inl ⟨i, hi, hallow, rfl⟩
  | cons x ws ih =>
    intro db db' h hi
    obtain ⟨mid, hmid, hrest⟩ := applyAll_cons h
    rcases ih hrest hi with ⟨i₁, hi₁, hallow₁, hid⟩ | ⟨y, hy, hys⟩
    · rcases apply_allowed hmid hi₁ hallow₁ with ⟨i₀, hi₀, hallow₀, hid₀⟩ | hx
      · exact .inl ⟨i₀, hi₀, hallow₀, hid₀.trans hid⟩
      · exact .inr ⟨x, List.mem_cons_self, hx.trans (congrArg some hid)⟩
    · exact .inr ⟨y, List.mem_cons_of_mem _ hy, hys⟩

theorem apply_filed (hx : x.Files) (h : db.apply x = some db') (hf : Filed db) : Filed db' := by
  constructor
  · rcases apply_grants h with ⟨u, rfl, heq, hnew⟩ | heq <;> rw [heq]
    · exact hf.authorizations.snoc hnew (hx.authorization u rfl).1
    · exact hf.authorizations
  · rcases apply_carriers h with ⟨t, rfl, heq, hnew⟩ | heq <;> rw [heq]
    · exact hf.txns.snoc hnew (hx.txn t rfl)
    · exact hf.txns
  · rcases apply_authorizations h with ⟨u, rfl, heq, -⟩ | heq <;> rw [heq]
    · intro v hv
      rcases List.mem_append.mp hv with hv | hv
      · exact hf.usable v hv
      · rw [List.mem_singleton.mp hv]
        exact (hx.authorization u rfl).2
    · exact hf.usable

theorem apply_granted (h : db.apply x = some db') (hid : Granted db id) : Granted db' id := by
  unfold Granted
  rcases apply_grants h with ⟨u, -, heq, -⟩ | heq <;> rw [heq]
  · rw [List.map_append]
    exact List.mem_append_left _ hid
  · exact hid

theorem apply_carried (h : db.apply x = some db') (hid : id ∈ db.carriers.map Prod.snd) :
    id ∈ db'.carriers.map Prod.snd := by
  rcases apply_carriers h with ⟨u, -, heq, -⟩ | heq <;> rw [heq]
  · rw [List.map_append]
    exact List.mem_append_left _ hid
  · exact hid

/-! ## What is owed -/

/-- The write mints the authorization of the intent. -/
def Write.authorizes (id : String) : Write → Bool
  | .insertAuthorization u => u.intent_id == id
  | _ => false

/-- The intent that a transaction leaves allowed without an authorization. -/
def owedBy (ws : List Write) : Option String :=
  (ws.findSome? Write.allows).filter fun id => !ws.any (Write.authorizes id)

/-- The transaction mints the authorization of the intent and opens its transaction. -/
def Pays (id : String) (ws : List Write) : Prop :=
  ∃ u, .insertAuthorization u ∈ ws ∧ .insertTxn (record_provider_txn u) ∈ ws ∧ u.intent_id = id

theorem applyAll_filed {ws : List Write} (hws : ∀ x ∈ ws, x.Files) (h : db.applyAll ws = .ok db')
    (hf : Filed db) : Filed db' :=
  applyAll_keeps_all (fun _ _ _ hx hap hf => apply_filed hx hap hf) hws h hf

theorem applyAll_granted {ws : List Write} (h : db.applyAll ws = .ok db') (hid : Granted db id) :
    Granted db' id :=
  applyAll_keeps_all (P := fun _ => True) (fun _ _ _ _ hap hid => apply_granted hap hid)
    (fun _ _ => trivial) h hid

theorem applyAll_paired {ws : List Write} (h : db.applyAll ws = .ok db') (hid : Paired db id) :
    Paired db' id :=
  ⟨applyAll_granted h hid.1, applyAll_keeps_all (P := fun _ => True)
    (fun _ _ _ _ hap hid => apply_carried hap hid) (fun _ _ => trivial) h hid.2⟩

theorem apply_authorization {u : BoundedAuthorization}
    (h : db.apply (.insertAuthorization u) = some db') : Granted db' u.intent_id := by
  obtain ⟨rows, hrows, heq⟩ := Option.bind_eq_some_iff.mp h
  obtain ⟨rfl, -⟩ := insertUnique_eq hrows
  rw [← Option.some.inj heq]
  simp [Granted, DB.grants]

theorem apply_txn {t : ProviderTransaction} (h : db.apply (.insertTxn t) = some db') :
    t.intent_id ∈ db'.carriers.map Prod.snd := by
  obtain ⟨rows, hrows, heq⟩ := Option.bind_eq_some_iff.mp h
  obtain ⟨rfl, -⟩ := insertUnique_eq hrows
  rw [← Option.some.inj heq]
  simp [DB.carriers]

/-- What a transaction mints is paired. -/
theorem applyAll_mints {ws : List Write} (h : db.applyAll ws = .ok db') (hm : Pays id ws) :
    Paired db' id := by
  obtain ⟨u, hu, ht, rfl⟩ := hm
  constructor
  · exact applyAll_brings (J := fun _ => True) (P := fun _ => True) (fun _ _ _ _ _ _ _ => trivial)
      (fun _ _ hap _ => apply_authorization hap) (fun _ _ _ _ hap hid => apply_granted hap hid) hu
      (fun _ _ => trivial) h trivial
  · exact applyAll_brings (J := fun _ => True) (P := fun _ => True) (fun _ _ _ _ _ _ _ => trivial)
      (fun _ _ hap _ => apply_txn hap) (fun _ _ _ _ hap hid => apply_carried hap hid) ht
      (fun _ _ => trivial) h trivial

end

/-! ## The discipline -/

/-- How far a request has got: the intent it has committed as allowed and still owes an
authorization, and the databases it has read while it owed none, the latest first. -/
structure Pledge where
  owed : Option String
  seen : List DB

def Pledge.read (q : Pledge) (db : DB) : Pledge :=
  if q.owed.isSome then q else { q with seen := db :: q.seen }

/-- Every authorization the request has read is named after its intent. -/
def Pledge.Trusts (q : Pledge) : Prop :=
  ∀ db ∈ q.seen, ∀ u ∈ db.authorizations, u.authorization_id = u.intent_id

/-- What a request may commit: rows filed under their intents, an allowed intent with its
authorization or by itself, and next the authorization it owes. -/
structure Pledge.Allows (q : Pledge) (ws : List Write) : Prop where
  files : q.Trusts → ∀ x ∈ ws, x.Files
  allowed : ∀ x ∈ ws, ∀ id, x.allows = some id → owedBy ws = some id ∨ Pays id ws
  pays : ∀ id, q.owed = some id → Pays id ws

/-- Handlers that owe at most one authorization, and pay with their next commit. -/
def minting : Protocol World Stmt Call Answer Pledge where
  stmt q s w q' := match s with
    | .commit ws => q.Allows ws ∧ q' = { q with owed := if w.accepts ws then owedBy ws else q.owed }
    | .select => q' = q.read w.db
    | _ => q' = q
  call q _ _ q' := q' = q

section
variable {H : Host} {α β : Type} {Post : β → Pledge → Prop} {q : Pledge} {seen : List DB}

theorem minting_query {f : DB → α} {k : α → Handler β}
    (h : ∀ db, (k (f db)).Conforms minting Post (q.read db)) :
    (Handler.query f >>= k).Conforms minting Post q := fun w => ⟨_, rfl, h w.db⟩

theorem minting_now {k : Instant → Handler β}
    (h : ∀ t db, (k t).Conforms minting Post (q.read db)) :
    (Handler.now >>= k).Conforms minting Post q := fun w => ⟨_, rfl, h w.clock w.db⟩

theorem minting_fresh {k : Nat → Handler β} (h : ∀ n, (k n).Conforms minting Post q) :
    (Handler.fresh >>= k).Conforms minting Post q := fun w => ⟨q, rfl, h w.next⟩

theorem minting_audit {s : Session} {a : AuditArgs} {k : Session → Handler β}
    (h : ∀ e db, (k (s ++ [.insertAudit e])).Conforms minting Post (q.read db)) :
    (record_audit H s a >>= k).Conforms minting Post q := fun w => ⟨_, rfl, h _ w.db⟩

theorem minting_commit {ws : Session} {k : Unit → Handler β} (hws : q.Allows ws)
    (h : (k ()).Conforms minting Post { q with owed := owedBy ws }) :
    (Handler.commit ws >>= k).Conforms minting Post q := by
  refine Handler.conforms_commit fun w => ⟨_, ⟨hws, rfl⟩, fun db hdb => ?_⟩
  rw [accepts_ok hdb]
  exact h

theorem minting_tryCommit {ws : Session} {k : Except Write Unit → Handler β} (hws : q.Allows ws)
    (hok : (k (.ok ())).Conforms minting Post { q with owed := owedBy ws })
    (herror : ∀ x, (k (.error x)).Conforms minting Post q) :
    (Handler.tryCommit ws >>= k).Conforms minting Post q := by
  intro w
  refine ⟨_, ⟨hws, rfl⟩, ?_⟩
  show (k ((w.db.applyAll ws).map fun _ => ())).Conforms minting Post
    { q with owed := if (w.db.applyAll ws).isOk then owedBy ws else q.owed }
  cases w.db.applyAll ws with
  | ok db' => exact hok
  | error y => exact herror y

/-- A write that neither files a row under an intent nor allows one. -/
structure Write.Plain (x : Write) : Prop where
  authorization : ∀ u, x ≠ .insertAuthorization u
  txn : ∀ t, x ≠ .insertTxn t
  allows : x.allows = none

theorem Write.Plain.files {x : Write} (h : x.Plain) : x.Files :=
  ⟨fun u hu => absurd hu (h.authorization u), fun t ht => absurd ht (h.txn t)⟩

theorem Write.Logs.plain {x : Write} (h : x.Logs) : x.Plain := by
  rcases h with ⟨e, rfl⟩ | ⟨p, rfl⟩
  · exact ⟨fun _ => nofun, fun _ => nofun, rfl⟩
  · exact ⟨fun _ => nofun, fun _ => nofun, rfl⟩

theorem Write.Turns.plain {x : Write} (h : x.Turns) : x.Plain := by
  rcases h with h | ⟨l, c, rfl⟩
  · exact h.plain
  · exact ⟨fun _ => nofun, fun _ => nofun, rfl⟩

theorem owedBy_plain {ws : List Write} (hws : ∀ x ∈ ws, x.allows = none) : owedBy ws = none := by
  have hnone : ws.findSome? Write.allows = none := List.findSome?_eq_none_iff.mpr hws
  rw [owedBy, hnone]
  rfl

theorem Pledge.Allows.of_plain {ws : List Write} (hq : q.owed = none) (hws : ∀ x ∈ ws, x.Plain) :
    q.Allows ws where
  files _ x hx := (hws x hx).files
  allowed x hx _ hid := absurd ((hws x hx).allows.symm.trans hid) nofun
  pays _ hid := absurd (hq.symm.trans hid) nofun

theorem Pledge.read_owed (q : Pledge) (db : DB) : (q.read db).owed = q.owed := by
  unfold Pledge.read
  split <;> rfl

theorem Pledge.read_seen (q : Pledge) (db : DB) : q.seen ⊆ (q.read db).seen := by
  unfold Pledge.read
  split
  · exact List.Subset.refl _
  · exact List.subset_cons_self _ _

/-- Parts that only write what is plain. -/
theorem minting_of_writes {P : Write → Prop} {R : α → Prop} (hP : ∀ x, P x → x.Plain)
    {p : Handler α} : ∀ {q : Pledge}, q.owed = none → p.Writes P R →
      p.Conforms minting (fun a q' => q'.owed = none ∧ q.seen ⊆ q'.seen ∧ R a) q := by
  induction p with
  | ret a => intro q hq h; exact ⟨hq, List.Subset.refl _, h⟩
  | halt => intro q _ _; trivial
  | stmt s k ih =>
    intro q hq h w
    obtain ⟨_, hs, hk⟩ := h w
    cases s with
    | commit ws =>
      have hws : ∀ x ∈ ws, x.Plain := fun x hx => hP x (hs ws rfl x hx)
      have howed : (if w.accepts ws then owedBy ws else q.owed) = none := by
        rw [owedBy_plain fun x hx => (hws x hx).allows, hq]
        exact ite_self none
      exact ⟨_, ⟨.of_plain hq hws, rfl⟩, @ih w ⟨_, q.seen⟩ howed hk⟩
    | select =>
      refine ⟨_, rfl, Prog.conforms_mono (fun a q' h => ?_) (ih w ((q.read_owed w.db).trans hq) hk)⟩
      exact ⟨h.1, List.Subset.trans (q.read_seen w.db) h.2.1, h.2.2⟩
    | _ => exact ⟨q, rfl, ih w hq hk⟩
  | call c k ih =>
    intro q hq h a
    obtain ⟨_, _, hk⟩ := h a
    exact ⟨q, rfl, ih a hq hk⟩

theorem minting_bind_writes {P : Write → Prop} {R : α → Prop} (hP : ∀ x, P x → x.Plain)
    {p : Handler α} {k : α → Handler β} (hp : p.Writes P R)
    (hk : ∀ a seen', seen ⊆ seen' → R a → (k a).Conforms minting Post ⟨none, seen'⟩) :
    (p >>= k).Conforms minting Post ⟨none, seen⟩ := by
  refine Prog.conforms_seq (minting_of_writes hP rfl hp) fun a q' h => ?_
  obtain ⟨owed, seen'⟩ := q'
  obtain rfl : owed = none := h.1
  exact hk a seen' h.2.1 h.2.2

theorem minting_reads {R : α → Prop} {p : Handler α} {k : α → Handler β} (hp : p.Reads R)
    (hk : ∀ a seen', seen ⊆ seen' → R a → (k a).Conforms minting Post ⟨none, seen'⟩) :
    (p >>= k).Conforms minting Post ⟨none, seen⟩ :=
  minting_bind_writes (fun _ h => h.elim) (Handler.writes_of_reads hp) hk

/-! ## The handlers -/

/-- An answer that reports an intent allowed without an authorization has read it so: the
intent first, and then no authorization for it. -/
def Promised (reply : Reply) (q : Pledge) : Prop :=
  ∀ r, reply = .intent r → r.decision = "allow" → r.authorization = none →
    ∃ later earlier rest, q.seen = later :: earlier :: rest ∧
      ∃ i ∈ earlier.intents, i.decision = .allow ∧ ¬ Granted later i.intent_id

theorem promised_error {reply : Reply} (h : reply.IsError) : Promised reply q := by
  obtain ⟨e, rfl⟩ := h
  exact fun r hr => absurd hr nofun

theorem promised_other {r : PaymentIntentResponse} (h : r.decision ≠ "allow") :
    Promised (.intent r) q := by
  intro r' hr hallow
  obtain rfl := Reply.intent.inj hr
  exact absurd hallow h

theorem promised_authorized {r : PaymentIntentResponse} (h : r.authorization ≠ none) :
    Promised (.intent r) q := by
  intro r' hr _ hnone
  obtain rfl := Reply.intent.inj hr
  exact absurd hnone h

theorem minting_authenticated {Post : Reply → Pledge → Prop} {k : Authenticated → Handler Reply}
    {ctx : RequestContext} {token : String} {expected : Option String}
    (hraise : ∀ e q, e.IsError → Post e q)
    (hk : ∀ a seen', seen ⊆ seen' → a.pending.All Write.Logs →
      (k a).Conforms minting Post ⟨none, seen'⟩) :
    (Handler.attempt (pure (resolve_session_token H token ctx.authorization)) fun token =>
      Handler.attempt (authenticate H ctx token expected) k).Conforms minting Post ⟨none, seen⟩ := by
  cases htoken : resolve_session_token H token ctx.authorization with
  | error e => exact hraise e _ (resolve_session_token_error htoken)
  | ok token =>
    show (Handler.attempt (authenticate H ctx token expected) k).Conforms _ _ _
    refine minting_reads (authenticate_raises H ctx token expected) fun r seen' hsub hr => ?_
    cases r with
    | error e => exact hraise e _ (hr.2 e rfl)
    | ok a =>
      refine hk a seen' hsub fun x hx => ?_
      obtain ⟨p, rfl⟩ := hr.1 a rfl x hx
      exact .inr ⟨p, rfl⟩

/-- An intent committed by itself, as it was decided. -/
theorem owedBy_alone {ws : List Write} {i : PaymentIntent} (hmem : .insertIntent i ∈ ws)
    (hws : ∀ x ∈ ws, x.Logs ∨ x = .insertIntent i) : owedBy ws = (Write.insertIntent i).allows := by
  have hmint : ∀ id, ws.any (Write.authorizes id) = false := by
    intro id
    rw [List.any_eq_false]
    intro x hx
    rcases hws x hx with (⟨e, rfl⟩ | ⟨p, rfl⟩) | rfl <;> exact Bool.false_ne_true
  have hfind : ws.findSome? Write.allows = (Write.insertIntent i).allows := by
    cases hallow : ws.findSome? Write.allows with
    | none => exact (List.findSome?_eq_none_iff.mp hallow _ hmem).symm
    | some id =>
      obtain ⟨x, hx, hid⟩ := List.exists_of_findSome?_eq_some hallow
      rcases hws x hx with hlogs | rfl
      · exact absurd (hlogs.plain.allows.symm.trans hid) nofun
      · exact hid.symm
  rw [owedBy, hfind]
  cases (Write.insertIntent i).allows with
  | none => rfl
  | some id => simp [hmint]

theorem Pledge.Allows.alone {ws : List Write} {i : PaymentIntent} (hmem : .insertIntent i ∈ ws)
    (hws : ∀ x ∈ ws, x.Logs ∨ x = .insertIntent i) : Pledge.Allows ⟨none, seen⟩ ws := by
  refine ⟨fun _ x hx => ?_, fun x hx id hid => .inl ?_, fun _ => nofun⟩
  · rcases hws x hx with hlogs | rfl
    · exact hlogs.plain.files
    · exact ⟨fun _ => nofun, fun _ => nofun⟩
  · rcases hws x hx with hlogs | rfl
    · exact absurd (hlogs.plain.allows.symm.trans hid) nofun
    · exact (owedBy_alone hmem hws).trans hid

/-- `_record_intent` commits the intent by itself: allowed, it is owed from then on. -/
theorem record_intent_minting {s : Session} (hs : s.All Write.Logs) (agent : Agent)
    (req : PaymentIntentRequest) (v : Verdict) :
    (record_intent H s agent req v).Conforms minting (fun i q' => q'.owed = none ∨
      v.decision = .allow ∧ q'.owed = some i.intent_id) ⟨none, seen⟩ := by
  refine minting_now fun t _ => minting_fresh fun n => minting_query fun db => ?_
  refine minting_audit fun e _ => minting_audit fun e' _ => ?_
  have hmem : .insertIntent (intentRow agent req v (H.uuid4 n) (v.now.getD t)) ∈
      s ++ [.insertIntent (intentRow agent req v (H.uuid4 n) (v.now.getD t))] ++
        [.insertAudit e] ++ [.insertAudit e'] := by
    simp
  have hws : ∀ x ∈ s ++ [.insertIntent (intentRow agent req v (H.uuid4 n) (v.now.getD t))] ++
      [.insertAudit e] ++ [.insertAudit e'], x.Logs ∨
        x = .insertIntent (intentRow agent req v (H.uuid4 n) (v.now.getD t)) := by
    intro x hx
    simp only [List.append_assoc, List.mem_append, List.mem_singleton] at hx
    rcases hx with hx | rfl | rfl | rfl
    · exact .inl (hs x hx)
    · exact .inr rfl
    · exact .inl (Write.logs_audit e)
    · exact .inl (Write.logs_audit e')
  refine minting_tryCommit (.alone hmem hws) (minting_query fun db' => ?_) fun x => ?_
  · rw [owedBy_alone hmem hws]
    by_cases hallow : v.decision = .allow
    · refine .inr ⟨hallow, ?_⟩
      rw [Pledge.read_owed]
      refine (if_pos hallow).trans (congrArg some ?_)
      cases hrow : db'.intents.find? (fun i => i.intent_id == _) with
      | none => rfl
      | some i =>
        have hkey := List.find?_some hrow
        exact (beq_iff_eq.mp hkey).symm
    · refine .inl ?_
      rw [Pledge.read_owed]
      exact if_neg hallow
  · split
    · next heq => exact absurd heq nofun
    · refine minting_query fun db' => ?_
      split
      · exact .inl (Pledge.read_owed _ db')
      · trivial
    · trivial

theorem mint_minting (intent : PaymentIntent) :
    (mint_bounded_authorization H intent).Conforms minting (fun u q' => q'.owed = q.owed ∧
      u.intent_id = intent.intent_id ∧ u.authorization_id = u.intent_id ∧ 0 < u.max_usage) q :=
  minting_now fun _ db => fun w =>
    ⟨_, rfl, ((q.read db).read_owed w.db).trans (q.read_owed db), rfl, rfl, Int.one_pos⟩

theorem deny_minting {s : Session} (hs : s.All Write.Logs) (agent : Agent)
    (req : PaymentIntentRequest) (check : String) (reasons : List String) :
    (deny H s agent req check reasons).Conforms minting Promised ⟨none, seen⟩ :=
  Prog.conforms_seq (record_intent_minting hs agent _ _) fun _ _ _ =>
    promised_other (show "deny" ≠ "allow" by decide)

theorem value_allow {d : GovernanceDecision} (h : d.value = "allow") : d = .allow := by
  cases d with
  | allow => rfl
  | review => exact absurd h (by decide)
  | deny => exact absurd h (by decide)

theorem not_granted_of_find {db : DB} {id : String}
    (h : (db.authorizations.find? fun a => a.intent_id == id) = none) : ¬ Granted db id := by
  unfold Granted DB.grants
  rw [List.map_map]
  intro hid
  obtain ⟨u, hu, hkey⟩ := List.mem_map.mp hid
  have hne := List.find?_eq_none.mp h u hu
  exact hne (beq_iff_eq.mpr hkey)

/-- The authorization and the transaction that come with it. -/
theorem txn_files {u : BoundedAuthorization} (hu : u.authorization_id = u.intent_id) :
    (Write.insertTxn (record_provider_txn u)).Files :=
  ⟨fun _ => nofun, fun _ ht => Write.insertTxn.inj ht ▸ hu⟩

theorem minted_files {u : BoundedAuthorization}
    (hu : u.authorization_id = u.intent_id ∧ 0 < u.max_usage) {x : Write}
    (hx : x = .insertAuthorization u ∨ x = .insertTxn (record_provider_txn u)) : x.Files := by
  rcases hx with rfl | rfl
  · exact ⟨fun _ hv => Write.insertAuthorization.inj hv ▸ hu, fun _ => nofun⟩
  · exact txn_files hu.1

theorem allow_minting {s : Session} (hs : s.All Write.Logs) (agent : Agent)
    (parent : ParentAuthority) (req : PaymentIntentRequest) (now : Instant)
    (results : List PolicyResult) :
    (allow H s agent parent req now results).Conforms minting Promised ⟨none, seen⟩ := by
  refine Prog.conforms_seq (record_intent_minting hs agent _ _) fun i q₁ hi => ?_
  refine Prog.conforms_seq (mint_minting i) fun u q₂ hu => minting_audit fun e db => ?_
  refine minting_commit ⟨fun _ x hx => ?_, fun x hx id hid => ?_, fun id hid => ?_⟩
    (promised_authorized nofun)
  · simp only [List.cons_append, List.nil_append, List.mem_cons, List.not_mem_nil, or_false] at hx
    rcases hx with rfl | rfl | rfl
    · exact minted_files hu.2.2 (.inl rfl)
    · exact minted_files hu.2.2 (.inr rfl)
    · exact (Write.logs_audit e).plain.files
  · simp only [List.cons_append, List.nil_append, List.mem_cons, List.not_mem_nil, or_false] at hx
    rcases hx with rfl | rfl | rfl <;> exact absurd hid nofun
  · have howed : q₁.owed = some id := by
      rw [← hu.1, ← q₂.read_owed db]
      exact hid
    refine ⟨u, List.mem_cons_self, List.mem_cons_of_mem _ List.mem_cons_self, hu.2.1.trans ?_⟩
    rcases hi with hnone | ⟨-, hsome⟩
    · exact absurd (hnone.symm.trans howed) nofun
    · exact Option.some.inj (hsome.symm.trans howed)

theorem decide_intent_minting {s : Session} (hs : s.All Write.Logs) (agent : Agent)
    (parent : ParentAuthority) (req : PaymentIntentRequest) (now : Instant) (d : MandateDecision) :
    (decide_intent H s agent parent req now d).Conforms minting Promised ⟨none, seen⟩ := by
  refine minting_query fun recent => ?_
  dsimp only
  split
  · exact Prog.conforms_seq (record_intent_minting hs agent _ _) fun _ _ _ =>
      promised_other (show "review" ≠ "allow" by decide)
  · exact allow_minting hs agent parent req now _

theorem submit_payment_intent_minting (ctx : RequestContext) (req : PaymentIntentRequest) :
    (submit_payment_intent H ctx req).Conforms minting Promised ⟨none, seen⟩ := by
  refine minting_authenticated (fun e q he => promised_error he) fun a seen₁ _ hs => ?_
  dsimp only
  split
  · exact promised_error ⟨_, rfl⟩
  refine minting_now fun now _ => minting_query fun db => ?_
  split
  · next existing hfind =>
    refine minting_query fun db' r hr hallow hnone => ⟨db', db, _, rfl, existing, ?_, ?_, ?_⟩
    · exact List.mem_of_find?_eq_some hfind
    · obtain rfl := Reply.intent.inj hr
      exact value_allow hallow
    · obtain rfl := Reply.intent.inj hr
      exact not_granted_of_find (Option.map_eq_none_iff.mp hnone)
  refine minting_query fun db => ?_
  split
  · exact deny_minting hs _ _ _ _
  split
  · exact deny_minting hs _ _ _ _
  split
  · trivial
  · exact deny_minting hs _ _ _ _
  split
  · exact promised_error ⟨_, rfl⟩
  · refine minting_bind_writes (fun _ => Write.Logs.plain) (evaluate_mandate_writes hs _ _ _ _)
      fun r seen₂ _ hr => ?_
    dsimp only
    split
    · exact deny_minting hr _ _ _ _
    split
    · exact deny_minting hr _ _ _ _
    split
    · exact deny_minting hr _ _ _ _
    · exact decide_intent_minting hr _ _ _ _ _

theorem verify_mfa_challenge_minting (req : MFAVerifyRequest) :
    (verify_mfa_challenge H req).Conforms minting (fun _ _ => True) ⟨none, seen⟩ := by
  refine minting_query fun db₁ => ?_
  split
  · trivial
  refine minting_query fun db₂ => minting_now fun now db₃ => ?_
  split
  · trivial
  refine minting_query fun db₄ => ?_
  split
  · trivial
  refine minting_query fun db₅ => ?_
  split
  · trivial
  split
  · trivial
  · trivial
  refine Prog.conforms_seq (mint_minting _) fun u q hu => ?_
  refine minting_audit fun e db₆ => minting_audit fun e' db₇ => ?_
  refine minting_commit ⟨fun _ x hx => ?_, fun x hx id hid => ?_, fun id hid => ?_⟩ trivial
  · simp only [List.cons_append, List.nil_append, List.mem_cons, List.not_mem_nil, or_false] at hx
    rcases hx with rfl | rfl | rfl | rfl | rfl | rfl
    · exact ⟨fun _ => nofun, fun _ => nofun⟩
    · exact ⟨fun _ => nofun, fun _ => nofun⟩
    · exact minted_files hu.2.2 (.inl rfl)
    · exact minted_files hu.2.2 (.inr rfl)
    · exact (Write.logs_audit e).plain.files
    · exact (Write.logs_audit e').plain.files
  · simp only [List.cons_append, List.nil_append, List.mem_cons, List.not_mem_nil, or_false] at hx
    rcases hx with rfl | rfl | rfl | rfl | rfl | rfl
    · exact absurd hid nofun
    · refine .inr ⟨u, by simp, by simp, hu.2.1.trans ?_⟩
      exact Option.some.inj hid
    · exact absurd hid nofun
    · exact absurd hid nofun
    · exact absurd hid nofun
    · exact absurd hid nofun
  · have hnone : q.owed = none := hu.1
    rw [Pledge.read_owed, Pledge.read_owed, hnone] at hid
    exact absurd hid nofun

theorem consume_authorization_minting (ctx : RequestContext) (id token : String) :
    (consume_authorization H ctx id token).Conforms minting (fun _ _ => True) ⟨none, seen⟩ := by
  refine minting_query fun db => ?_
  split
  · trivial
  next auth hauth =>
  refine minting_authenticated (fun _ _ _ => trivial) fun a seen₁ h₁ hs => ?_
  refine minting_reads (revalidate_execution_reads H auth) fun r seen₂ h₂ _ => ?_
  cases r with
  | error e => trivial
  | ok agent =>
  intro w
  refine ⟨_, rfl, ?_⟩
  show Prog.Conforms _ _ (if !w.reservable id then _ else _ : Handler Reply) _
  split
  · exact fun w' => ⟨_, rfl, trivial⟩
  refine minting_query fun db' => ?_
  have hplain : ∀ x ∈ a.pending ++ countAttempt auth (db'.txns.find? fun t =>
      t.authorization_id == id), x.allows = none ∧
        (x.Plain ∨ x = .insertTxn (record_provider_txn auth)) := by
    intro x hx
    rcases List.mem_append.mp hx with hx | hx
    · exact ⟨(hs x hx).plain.allows, .inl (hs x hx).plain⟩
    have hturn : ∀ l c, (Write.updateTxn l c).Plain :=
      fun l c => Write.Turns.plain (.inr ⟨l, c, rfl⟩)
    unfold countAttempt at hx
    split at hx
    · obtain rfl := List.mem_singleton.mp hx
      exact ⟨rfl, .inl (hturn _ _)⟩
    · simp only [List.mem_cons, List.not_mem_nil, or_false] at hx
      rcases hx with rfl | rfl
      · exact ⟨rfl, .inr rfl⟩
      · exact ⟨rfl, .inl (hturn _ _)⟩
  have hread : db ∈ db' :: seen₂ :=
    List.mem_cons_of_mem _ (h₂ (h₁ List.mem_cons_self))
  refine minting_commit ⟨fun htrust x hx => ?_, fun x hx _ hid => ?_, fun _ hid => absurd hid nofun⟩ ?_
  · rcases (hplain x hx).2 with hx | rfl
    · exact hx.files
    · exact txn_files (htrust db hread auth (List.mem_of_find?_eq_some hauth))
  · exact absurd ((hplain x hx).1.symm.trans hid) nofun
  rw [owedBy_plain fun x hx => (hplain x hx).1]
  refine minting_query fun _ => minting_query fun _ => ?_
  refine Prog.conforms_mono (fun _ _ _ => trivial) (minting_of_writes (fun _ => Write.Turns.plain) rfl
    (execute_writes ⟨fun l c _ => .inr ⟨l, c, rfl⟩, fun e _ => .inl (Write.logs_audit e)⟩))

/-- The requests that file no row under an intent, and leave none allowed. -/
def Request.aside : Request → Bool
  | .submit_intent _ _ | .mfa_verify _ | .consume _ _ _ | .revoke_authorization _ _ _
  | .webhook _ _ | .refund _ _ _ | .reconcile _ _ _ | .batch _ => false
  | _ => true

theorem Request.Allows.plain {r : Request} (hr : r.aside = true) {x : Write} (h : r.Allows x) :
    x.Plain := by
  rcases h with h | h
  · exact h.plain
  refine ⟨?_, ?_, ?_⟩
  · rintro u rfl
    cases r <;> simp [Request.mayWrite, Write.Enrols, Request.aside] at h hr
  · rintro t rfl
    cases r <;> simp [Request.mayWrite, Write.Enrols, Request.aside] at h hr
  · unfold Write.allows
    split
    · cases r <;> simp [Request.mayWrite, Write.Enrols, Request.aside] at h hr
    · cases r <;> simp [Request.mayWrite, Write.Enrols, Request.aside] at h hr
    · rfl

/-- **Every request keeps the discipline.** -/
theorem handler_minting (H : Host) (r : Request) :
    (handler H r).Conforms minting (fun reply q => (∃ ctx req, r = .submit_intent ctx req) →
      Promised reply q) ⟨none, []⟩ := by
  have hany : (∀ ctx req, r ≠ .submit_intent ctx req) →
      (handler H r).Conforms minting (fun _ _ => True) ⟨none, []⟩ →
      (handler H r).Conforms minting (fun reply q => (∃ ctx req, r = .submit_intent ctx req) →
        Promised reply q) ⟨none, []⟩ := fun hr =>
    Prog.conforms_mono fun _ _ _ ⟨ctx, req, hsubmit⟩ => absurd hsubmit (hr ctx req)
  have hwrites : ∀ {P : Write → Prop}, (∀ x, P x → x.Plain) →
      (handler H r).Writes P (fun _ => True) →
      (handler H r).Conforms minting (fun _ _ => True) ⟨none, []⟩ := fun hP hw =>
    Prog.conforms_mono (fun _ _ _ => trivial) (minting_of_writes hP rfl hw)
  have hturns := @hwrites Write.Turns fun _ => Write.Turns.plain
  cases r with
  | submit_intent ctx req =>
    exact Prog.conforms_mono (fun _ _ h _ => h) (submit_payment_intent_minting ctx req)
  | mfa_verify req => exact hany (fun _ _ => nofun) (verify_mfa_challenge_minting req)
  | consume ctx id token => exact hany (fun _ _ => nofun) (consume_authorization_minting ctx id token)
  | revoke_authorization ctx id token =>
    exact hany (fun _ _ => nofun) (hturns (Handler.writes_mono (fun x hx => .inl hx.logs)
      (revoke_authorization_writes ctx id token)))
  | webhook raw signature =>
    exact hany (fun _ _ => nofun) (hturns (razorpay_webhook_writes spares_turns raw signature))
  | refund ctx id req => exact hany (fun _ _ => nofun) (hturns (refund_authorization_writes spares_turns ctx id req))
  | reconcile ctx id token =>
    exact hany (fun _ _ => nofun) (hturns (manual_reconcile_writes spares_turns ctx id token))
  | batch n =>
    exact hany (fun _ _ => nofun) (hturns (run_batch_writes spares_turns fun l c _ _ _ => .inr ⟨l, c, rfl⟩))
  | _ =>
    exact hany (fun _ _ => nofun) (hwrites (fun _ hx => Request.Allows.plain rfl hx) (handler_writes H _))

end

/-! ## The run -/

/-- The intent that a request has committed as allowed, while no later commit of its own
has gone through. -/
def owing (i : Nat) (tr : List (Event World Stmt Call Answer)) : Option String :=
  tr.foldl (fun owed ev => match ev with
    | .stmt j (.commit ws) w => if j = i ∧ w.accepts ws = true then owedBy ws else owed
    | _ => owed) none

/-- Whenever the request reads, no other one is between its two commits. -/
def Calm (j : Nat) : List (Event World Stmt Call Answer) → Prop :=
  Pool.Throughout fun tr ev => (∃ w, ev = .stmt j .select w) → ∀ k, k ≠ j → owing k tr = none

section
variable {tr : List (Event World Stmt Call Answer)} {ev : Event World Stmt Call Answer} {i j : Nat}
  {w : World} {ws : List Write}

theorem owing_quiet (h : ∀ i ws w, ev ≠ .stmt i (.commit ws) w) : owing j (tr ++ [ev]) = owing j tr := by
  unfold owing
  rw [List.foldl_append]
  show (match ev with
    | .stmt j' (.commit ws) w => _
    | _ => _) = _
  split
  · exact absurd rfl (h _ _ _)
  · rfl

theorem owing_commit : owing j (tr ++ [.stmt i (.commit ws) w]) =
    if i = j ∧ w.accepts ws = true then owedBy ws else owing j tr := by
  unfold owing
  rw [List.foldl_append]
  rfl

theorem Calm.before (h : Calm j (tr ++ [ev])) : Calm j tr := by
  intro pre ev' post heq
  refine h pre ev' (post ++ [ev]) ?_
  rw [heq]
  simp

theorem Calm.last (h : Calm j (tr ++ [.stmt j .select w])) {k : Nat} (hk : k ≠ j) :
    owing k tr = none := h tr _ [] rfl ⟨w, rfl⟩ k hk

end

theorem Uses.grants {db db' : DB} (h : Uses db db') : db'.grants = db.grants := by
  obtain ⟨as, hterms, rfl⟩ := h
  have hmap : ∀ bs : List BoundedAuthorization, bs.map (fun u => (u.authorization_id, u.intent_id)) =
      (bs.map BoundedAuthorization.terms).map fun u => (u.authorization_id, u.intent_id) := by
    intro bs
    rw [List.map_map]
    rfl
  unfold DB.grants
  rw [hmap, hterms, ← hmap]

theorem Uses.usable {db db' : DB} (h : Uses db db') (hu : ∀ u ∈ db.authorizations, 0 < u.max_usage) :
    ∀ u ∈ db'.authorizations, 0 < u.max_usage := by
  obtain ⟨as, hterms, rfl⟩ := h
  intro u hmem
  have hterm : u.terms ∈ db.authorizations.map BoundedAuthorization.terms :=
    hterms ▸ List.mem_map_of_mem hmem
  obtain ⟨v, hv, heq⟩ := List.mem_map.mp hterm
  have hmax : v.terms.max_usage = u.terms.max_usage := by rw [heq]
  exact lt_of_lt_of_eq (hu v hv) hmax

theorem Uses.granted {db db' : DB} (h : Uses db db') {id : String} (hid : Granted db id) :
    Granted db' id := by
  unfold Granted at hid ⊢
  rwa [h.grants]

/-- What is known of one request: what it owes, and that what was granted when it read a
database still is. -/
structure Pledge.Sound (q : Pledge) (db : DB) (j : Nat) (tr : List (Event World Stmt Call Answer)) :
    Prop where
  owed : q.owed = owing j tr
  trusts : q.Trusts
  kept : ∀ read ∈ q.seen, ∀ id, Granted read id → Granted db id
  order : q.seen.Pairwise fun later earlier => ∀ id, Granted earlier id → Granted later id
  calm : Calm j tr → ∀ read ∈ q.seen, ∀ i ∈ read.intents, i.decision = .allow →
    Granted read i.intent_id

/-- What holds while requests run: the rows are filed, and every allowed intent is paired
or owed. -/
structure Pairing (db : DB) (qs : Nat → Pledge) (tr : List (Event World Stmt Call Answer)) :
    Prop where
  filed : Filed db
  backed : ∀ i ∈ db.intents, i.decision = .allow → Paired db i.intent_id ∨
    ∃ j, owing j tr = some i.intent_id
  sound : ∀ j, (qs j).Sound db j tr

section
variable {w : World} {db db' : DB} {q : Pledge} {qs : Nat → Pledge} {i j : Nat}
  {tr : List (Event World Stmt Call Answer)} {ev : Event World Stmt Call Answer} {ws : List Write}

namespace Pledge.Sound

/-- A step that leaves what the request owes as it is. -/
theorem onward (h : q.Sound db j tr) (hev : owing j (tr ++ [ev]) = owing j tr)
    (hdb : ∀ id, Granted db id → Granted db' id) : q.Sound db' j (tr ++ [ev]) where
  owed := h.owed.trans hev.symm
  trusts := h.trusts
  kept read hread id hid := hdb id (h.kept read hread id hid)
  order := h.order
  calm hcalm := h.calm hcalm.before

/-- Its own commit. -/
theorem commit (h : q.Sound db j tr) (hdb : ∀ id, Granted db id → Granted db' id) {w : World} :
    Pledge.Sound { q with owed := if w.accepts ws then owedBy ws else q.owed } db' j
      (tr ++ [.stmt j (.commit ws) w]) where
  owed := by
    rw [owing_commit, ← h.owed]
    by_cases hacc : w.accepts ws = true
    · rw [if_pos hacc, if_pos ⟨rfl, hacc⟩]
    · rw [if_neg hacc, if_neg fun h => hacc h.2]
  trusts := h.trusts
  kept read hread id hid := hdb id (h.kept read hread id hid)
  order := h.order
  calm hcalm := h.calm hcalm.before

/-- Its own read: while it owes nothing and is calm, all that is allowed is granted. -/
theorem read (h : q.Sound w.db j tr) (hfiled : Filed w.db)
    (hbacked : ∀ i ∈ w.db.intents, i.decision = .allow → Paired w.db i.intent_id ∨
      ∃ k, owing k tr = some i.intent_id) :
    (q.read w.db).Sound w.db j (tr ++ [.stmt j .select w]) := by
  have hev : owing j (tr ++ [.stmt j .select w]) = owing j tr := owing_quiet fun _ _ _ => nofun
  unfold Pledge.read
  split
  · exact h.onward hev fun _ => id
  next hnone =>
  have howed : owing j tr = none := by
    rw [← h.owed]
    simpa using hnone
  refine ⟨h.owed.trans hev.symm, fun read hread u hu => ?_, fun read hread id hid => ?_,
    List.pairwise_cons.mpr ⟨h.kept, h.order⟩, fun hcalm read hread i hi hallow => ?_⟩
  · rcases List.mem_cons.mp hread with rfl | hread
    · exact hfiled.authorizations.named _ (List.mem_map_of_mem hu)
    · exact h.trusts read hread u hu
  · rcases List.mem_cons.mp hread with rfl | hread
    · exact hid
    · exact h.kept read hread id hid
  · rcases List.mem_cons.mp hread with rfl | hread
    · rcases hbacked i hi hallow with hpaired | ⟨k, hk⟩
      · exact hpaired.1
      · -- neither the request itself nor another one owes it
        by_cases hkj : k = j
        · rw [hkj, howed] at hk
          exact absurd hk nofun
        · rw [hcalm.last hkj] at hk
          exact absurd hk nofun
    · exact h.calm hcalm.before read hread i hi hallow

end Pledge.Sound

namespace Pairing

theorem start (hfiled : Filed db)
    (hpaired : ∀ i ∈ db.intents, i.decision = .allow → Paired db i.intent_id) :
    Pairing db (fun _ => ⟨none, []⟩) [] where
  filed := hfiled
  backed i hi hallow := .inl (hpaired i hi hallow)
  sound _ := ⟨rfl, fun _ h => absurd h List.not_mem_nil, fun _ h => absurd h List.not_mem_nil,
    List.Pairwise.nil, fun _ _ h => absurd h List.not_mem_nil⟩

/-- A step that changes no more than usage counts. -/
theorem still (h : Pairing db qs tr) (hdb : Uses db db')
    (hev : ∀ j, owing j (tr ++ [ev]) = owing j tr) {q' : Pledge}
    (hq : q'.Sound db' i (tr ++ [ev])) : Pairing db' (Function.update qs i q') (tr ++ [ev]) := by
  have hgrants := hdb.grants
  have husable := hdb.usable h.filed.usable
  have hgranted : ∀ id, Granted db id → Granted db' id := fun _ => hdb.granted
  obtain ⟨as, -, heq⟩ := hdb
  have hcarriers : db'.carriers = db.carriers := by rw [heq]; rfl
  refine ⟨⟨hgrants ▸ h.filed.authorizations, hcarriers ▸ h.filed.txns, husable⟩, fun k hk hallow => ?_, ?_⟩
  · have hk : k ∈ db.intents := by rwa [heq] at hk
    rcases h.backed k hk hallow with hpaired | ⟨j, hj⟩
    · refine .inl ⟨hgranted _ hpaired.1, ?_⟩
      rw [hcarriers]
      exact hpaired.2
    · exact .inr ⟨j, (hev j).trans hj⟩
  · refine (Function.forall_update_iff qs fun j q => q.Sound db' j (tr ++ [ev])).mpr ⟨hq, fun j _ => ?_⟩
    exact (h.sound j).onward (hev j) hgranted

/-- A commit that goes through: what it allows is owed or minted, and what was owed is paid. -/
theorem commit (h : Pairing w.db qs tr) (hws : (qs i).Allows ws) (hdb : w.db.applyAll ws = .ok db') :
    Pairing db' (Function.update qs i ⟨owedBy ws, (qs i).seen⟩)
      (tr ++ [.stmt i (.commit ws) w]) := by
  have hacc := accepts_ok hdb
  have hgranted : ∀ id, Granted w.db id → Granted db' id := fun id => applyAll_granted hdb
  refine ⟨applyAll_filed (hws.files (h.sound i).trusts) hdb h.filed, fun k hk hallow => ?_, ?_⟩
  · rcases applyAll_allowed hallow hdb hk with ⟨k₀, hk₀, hallow₀, hid⟩ | ⟨x, hx, hid⟩
    · rw [← hid]
      rcases h.backed k₀ hk₀ hallow₀ with hpaired | ⟨j, hj⟩
      · exact .inl (applyAll_paired hdb hpaired)
      · by_cases hji : i = j
        · subst hji
          exact .inl (applyAll_mints hdb (hws.pays _ ((h.sound i).owed.trans hj)))
        · refine .inr ⟨j, ?_⟩
          rw [owing_commit, if_neg fun h => hji h.1]
          exact hj
    · rcases hws.allowed x hx _ hid with howed | hmints
      · refine .inr ⟨i, ?_⟩
        rw [owing_commit, if_pos ⟨rfl, hacc⟩]
        exact howed
      · exact .inl (applyAll_mints hdb hmints)
  · refine (Function.forall_update_iff qs fun j q =>
      q.Sound db' j (tr ++ [.stmt i (.commit ws) w])).mpr ⟨?_, fun j hj => ?_⟩
    · have hown := @(h.sound i).commit _ _ _ _ _ ws hgranted w
      rw [if_pos hacc] at hown
      exact hown
    · refine (h.sound j).onward ?_ hgranted
      rw [owing_commit, if_neg fun h => hj h.1.symm]

theorem stmt {s : Stmt} {q' : Pledge} (h : Pairing w.db qs tr) (hs : minting.stmt (qs i) s w q') :
    Pairing (w.exec i s).db (Function.update qs i q') (tr ++ [.stmt i s w]) := by
  have hquiet : (∀ ws, s ≠ .commit ws) → q' = qs i →
      Pairing (w.exec i s).db (Function.update qs i q') (tr ++ [.stmt i s w]) := by
    intro hs hq
    have hev : ∀ j, owing j (tr ++ [.stmt i s w]) = owing j tr := fun j =>
      owing_quiet fun _ ws _ heq => hs ws (Event.stmt.inj heq).2.1
    have huses := uses_exec hs w i
    rw [hq]
    exact h.still huses hev ((h.sound i).onward (hev i) fun _ => huses.granted)
  cases s with
  | select =>
    obtain rfl := hs
    have hev : ∀ j, owing j (tr ++ [.stmt i .select w]) = owing j tr := fun j =>
      owing_quiet fun _ _ _ => nofun
    exact h.still ⟨_, rfl, rfl⟩ hev ((h.sound i).read h.filed h.backed)
  | fresh => exact hquiet (fun _ => nofun) hs
  | rollback => exact hquiet (fun _ => nofun) hs
  | try_gate g => exact hquiet (fun _ => nofun) hs
  | reserve id spend => exact hquiet (fun _ => nofun) hs
  | commit ws =>
    obtain ⟨hws, rfl⟩ := hs
    show Pairing (w.commit i ws).db _ _
    unfold World.commit
    cases hdb : w.db.applyAll ws with
    | ok db' =>
      rw [if_pos (accepts_ok hdb)]
      exact h.commit hws hdb
    | error x =>
      have hacc : ¬ w.accepts ws = true := by simp [accepts_error hdb]
      have hev : ∀ j, owing j (tr ++ [.stmt i (.commit ws) w]) = owing j tr := fun j => by
        rw [owing_commit, if_neg fun h => hacc h.2]
      have huses := uses_rollback w i
      rw [if_neg hacc]
      exact h.still huses hev ((h.sound i).onward (hev i) fun _ => huses.granted)

end Pairing

end

/-- **An allowed intent is paired, unless it is owed.** However requests interleave, fail or
die: every allowed intent that no request still owes has exactly one authorization, spent
or to be spent, and exactly one transaction; and a request that has read while no other was
between its two commits reports no intent as allowed without an authorization. -/
theorem intents_paired {H : Host} {reqs : List Request} {w : World} (hfiled : Filed w.db)
    (hpaired : ∀ i ∈ w.db.intents, i.decision = .allow → Paired w.db i.intent_id)
    {c : Pool World Stmt Call Answer Reply}
    (h : Pool.Reach machine Pool.Free (Pool.start w (reqs.map (handler H))) c) :
    (∀ i ∈ c.store.db.intents, i.decision = .allow → (∀ j, owing j c.trace ≠ some i.intent_id) →
      (c.store.db.authorizations.map BoundedAuthorization.intent_id).count i.intent_id = 1 ∧
      (c.store.db.txns.map ProviderTransaction.intent_id).count i.intent_id = 1 ∧
      ∃ u ∈ c.store.db.authorizations, u.intent_id = i.intent_id ∧
        (u.usage_count < u.max_usage ∨ 0 < u.usage_count)) ∧
    ∀ (j : Nat) ctx req r, reqs[j]? = some (.submit_intent ctx req) → Calm j c.trace →
      c.threads[j]? = some (.ret (.intent r)) → r.decision = "allow" → r.authorization ≠ none := by
  have hfollows : (Pool.start w (reqs.map (handler H))).Follows minting
      (fun j reply q => (∃ ctx req, reqs[j]? = some (.submit_intent ctx req)) → Promised reply q)
      fun _ => ⟨none, []⟩ := by
    intro j p hp
    simp only [Pool.start, List.getElem?_map, Option.map_eq_some_iff] at hp
    obtain ⟨r, hr, rfl⟩ := hp
    refine Prog.conforms_mono (fun reply q hq hsubmit => hq ?_) (handler_minting H r)
    obtain ⟨ctx, req, hreq⟩ := hsubmit
    exact ⟨ctx, req, Option.some.inj (hr.symm.trans hreq)⟩
  obtain ⟨qs, hJ, hf⟩ := Pool.sim (J := fun w qs tr => Pairing w.db qs tr)
    (fun _ _ _ _ _ _ hJ _ hs => hJ.stmt hs)
    (fun w qs tr i c a q' hJ _ hc => by
      obtain rfl := hc
      have hev : ∀ j, owing j (tr ++ [.call i c a w]) = owing j tr := fun j =>
        owing_quiet (by simp)
      exact hJ.still ⟨_, rfl, rfl⟩ hev ((hJ.sound i).onward (hev i) fun _ => id))
    (fun w qs tr i wait hJ _ _ => by
      have hev : ∀ j, owing j (tr ++ [.died i wait]) = owing j tr := fun j =>
        owing_quiet (by simp)
      have huses := uses_rollback w i
      exact ⟨_, hJ.still huses hev ((hJ.sound i).onward (hev i) fun _ => huses.granted)⟩)
    (fun _ _ _ _ hJ => hJ) (Pairing.start hfiled hpaired) hfollows h
  refine ⟨fun i hi hallow hfree => ?_, fun j ctx req r hreq hcalm hret hallow hnone => ?_⟩
  · obtain ⟨hgranted, hcarried⟩ : Paired c.store.db i.intent_id := by
      rcases hJ.backed i hi hallow with hpaired | ⟨j, hj⟩
      · exact hpaired
      · exact absurd hj (hfree j)
    have hone := hJ.filed.authorizations.count hgranted
    have hone' := hJ.filed.txns.count hcarried
    unfold Granted at hgranted
    simp only [DB.grants, DB.carriers, List.map_map] at hgranted hone hone'
    obtain ⟨u, hu, hid⟩ := List.mem_map.mp hgranted
    refine ⟨hone, hone', u, hu, hid, ?_⟩
    have husable := hJ.filed.usable u hu
    omega
  · have hpromised : Promised (.intent r) (qs j) := hf j _ hret ⟨ctx, req, hreq⟩
    obtain ⟨later, earlier, rest, hseen, i, hi, hallow', hnot⟩ := hpromised r rfl hallow hnone
    have hsound := hJ.sound j
    have hgranted : Granted earlier i.intent_id :=
      hsound.calm hcalm earlier (by rw [hseen]; simp) i hi hallow'
    have horder := hsound.order
    rw [hseen] at horder
    exact hnot ((List.pairwise_cons.mp horder).1 earlier List.mem_cons_self _ hgranted)

namespace Sample

/-- A payment submitted twice, under one idempotency key. -/
def submissions : List Request := [.submit_intent ctx proposal, .submit_intent ctx proposal]

def submitted : Pool World Stmt Call Answer Reply :=
  Pool.start (capable "make_payment") (submissions.map (handler (host false [])))

/-- The first submission goes through before the second one starts. -/
def replayed : Pool World Stmt Call Answer Reply :=
  (submitted.run machine (List.replicate 25 (.run 0 (.ok .null)))).run machine
    (List.replicate 20 (.run 1 (.ok .null)))

/-- The first one dies between its two commits. -/
def abandoned : Pool World Stmt Call Answer Reply :=
  (submitted.run machine (List.replicate 17 (.run 0 (.ok .null)) ++ [.die 0])).run machine
    (List.replicate 20 (.run 1 (.ok .null)))

end Sample

theorem intents_paired_replayed :
    (∀ i ∈ Sample.replayed.store.db.intents, i.decision = .allow →
      (∀ j, owing j Sample.replayed.trace ≠ some i.intent_id) →
      (Sample.replayed.store.db.authorizations.map BoundedAuthorization.intent_id).count
        i.intent_id = 1 ∧
      (Sample.replayed.store.db.txns.map ProviderTransaction.intent_id).count i.intent_id = 1 ∧
      ∃ u ∈ Sample.replayed.store.db.authorizations, u.intent_id = i.intent_id ∧
        (u.usage_count < u.max_usage ∨ 0 < u.usage_count)) ∧
    ∀ (j : Nat) ctx req r, Sample.submissions[j]? = some (.submit_intent ctx req) →
      Calm j Sample.replayed.trace → Sample.replayed.threads[j]? = some (.ret (.intent r)) →
      r.decision = "allow" → r.authorization ≠ none := by
  refine @intents_paired (Sample.host false []) Sample.submissions (Sample.capable "make_payment")
    ⟨⟨List.nodup_nil, ?_⟩, ⟨List.nodup_nil, ?_⟩, ?_⟩ ?_ _ ?_
  · exact fun _ h => absurd h List.not_mem_nil
  · exact fun _ h => absurd h List.not_mem_nil
  · exact fun _ h => absurd h List.not_mem_nil
  · exact fun _ h => absurd h List.not_mem_nil
  · exact Pool.reach_run _ _ _ _ (Pool.reach_run _ _ _ _ .start)

set_option maxRecDepth 4000 in
/-- An intent that is allowed and never gets an authorization, and the replay that reports
it as allowed with none. -/
theorem abandoned_intent :
    Pool.Reach machine Pool.Free Sample.submitted Sample.abandoned ∧
    (∃ i ∈ Sample.abandoned.store.db.intents, i.decision = .allow ∧
      (Sample.abandoned.store.db.authorizations.map BoundedAuthorization.intent_id).count
        i.intent_id = 0 ∧
      (Sample.abandoned.store.db.txns.map ProviderTransaction.intent_id).count i.intent_id = 0) ∧
    ∃ r, Sample.abandoned.threads[1]? = some (.ret (.intent r)) ∧ r.decision = "allow" ∧
      r.authorization = none := by
  refine ⟨?_, ?_, ?_⟩
  · exact Pool.reach_run _ _ _ _ (Pool.reach_run _ _ _ _ .start)
  · exact ⟨_, List.mem_singleton_self _, rfl, rfl, rfl⟩
  · exact ⟨_, rfl, rfl, rfl⟩

end Paari
