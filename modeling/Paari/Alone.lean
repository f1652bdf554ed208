import Paari.Footprint
import Paari.Tables

/-!
# A request handled alone

What a request that runs alone keeps: a property of the tables that each write on its
line of the table keeps (`Stable`), and the order of the world between two requests
(`World.Orderly`): unique keys are unique, authorizations are single-use, and no
session holds a reservation.
-/

namespace Paari

open Atomic

/-! ## What a request keeps -/

section
variable {K : World → Prop} {P : Write → Prop} {w : World} {i : Nat}

theorem Handler.Writes.wp {α : Type} {R : α → Prop} {p : Handler α} (hp : p.Writes P R)
    (hexec : ∀ w s, (∀ ws, s = Stmt.commit ws → ∀ x ∈ ws, P x) → K w → K (w.exec i s)) (hK : K w)
    (calls : List (Call × Option Answer)) :
    p.Wp (World.exec i) (fun w' _ res => K w' ∧ ∀ a, res = some a → R a) calls w := by
  have hwp : p.Wp (World.exec i) (fun w' _ res => ∃ _ : Unit, K w' ∧ ∀ a, res = some a → R a)
      calls w :=
    Prog.wp_of_conforms (K := fun w' _ _ => K w') (fun w' _ _ s _ h hs => hexec w' s hs h)
      (fun _ _ _ _ h => h) (fun _ _ _ _ _ _ h _ => h) hp hK
  refine Prog.wp_mono ?_ hwp
  rintro w' _ res ⟨_, hK', hR⟩
  exact ⟨hK', hR⟩

/-- What every statement that keeps to the table keeps, the request keeps. -/
theorem serve_invariant {H : Host} {r : Request} {answers : List Answer}
    (hexec : ∀ w s, (∀ ws, s = Stmt.commit ws → ∀ x ∈ ws, r.Allows x) → K w → K (w.exec i s))
    (hroll : ∀ w, K w → K (w.rollback i)) (hK : K w) :
    K (Server.serve H r answers w i).store := by
  refine Server.serve_spec (Q := fun w' _ _ => K w') answers ?_
  exact Prog.wp_mono (fun w' _ _ h => hroll w' h.1) ((handler_writes H r).wp hexec hK [])

end

/-- Only usage counts differ. -/
def Uses (db db' : DB) : Prop :=
  ∃ as, as.map BoundedAuthorization.terms = db.authorizations.map BoundedAuthorization.terms ∧
    db' = { db with authorizations := as }

theorem uses_rollback (w : World) (i : Nat) : Uses w.db (w.rollback i).db :=
  ⟨_, (onward_rollback i w).terms, rollback_db i w⟩

theorem uses_exec {s : Stmt} (hs : ∀ ws, s ≠ .commit ws) (w : World) (i : Nat) :
    Uses w.db (w.exec i s).db := by
  cases s with
  | commit ws => exact absurd rfl (hs ws)
  | select => exact ⟨_, rfl, rfl⟩
  | fresh => exact ⟨_, rfl, rfl⟩
  | rollback => exact uses_rollback w i
  | try_gate g =>
    unfold World.exec
    dsimp only
    split
    · exact ⟨_, rfl, rfl⟩
    · exact uses_rollback w i
  | reserve id spend =>
    unfold World.exec
    dsimp only
    split
    · exact ⟨_, setUsage_terms w id spend.usage, rfl⟩
    · exact ⟨_, rfl, rfl⟩

/-- A property of the tables, blind to usage counts, that the writes of `P` keep. -/
structure Stable (P : Write → Prop) (K : DB → Prop) : Prop where
  write : ∀ db db' x, P x → db.apply x = some db' → K db → K db'
  use : ∀ (db : DB) (as : List BoundedAuthorization),
    as.map BoundedAuthorization.terms = db.authorizations.map BoundedAuthorization.terms →
    K db → K { db with authorizations := as }

namespace Stable

variable {P : Write → Prop} {K : DB → Prop} {w : World}

theorem uses (h : Stable P K) {db db' : DB} (huses : Uses db db') (hK : K db) : K db' := by
  obtain ⟨as, hterms, rfl⟩ := huses
  exact h.use db as hterms hK

theorem rollback (h : Stable P K) (i : Nat) (hK : K w.db) : K (w.rollback i).db :=
  h.uses (uses_rollback w i) hK

theorem exec (h : Stable P K) (i : Nat) {s : Stmt} (hs : ∀ ws, s = .commit ws → ∀ x ∈ ws, P x)
    (hK : K w.db) : K (w.exec i s).db := by
  cases s with
  | commit ws =>
    show K (w.commit i ws).db
    unfold World.commit
    split
    · next db' hdb => exact applyAll_keeps_all h.write (hs ws rfl) hdb hK
    · exact h.rollback i hK
  | _ =>
    refine h.uses (uses_exec ?_ w i) hK
    exact fun _ => nofun

theorem serve {H : Host} {r : Request} (h : Stable r.Allows K) (answers : List Answer) (i : Nat)
    (hK : K w.db) : K (Server.serve H r answers w i).store.db :=
  serve_invariant (K := fun w => K w.db) (fun _ _ hs hK => h.exec i hs hK)
    (fun _ hK => h.rollback i hK) hK

end Stable

/-! ## The world between two requests -/

/-- Unique keys are unique, authorizations are single-use, no reservation is open. -/
structure World.Orderly (w : World) : Prop where
  keys : w.db.Keys
  single : ∀ a ∈ w.db.authorizations, a.max_usage = 1 ∧ 0 ≤ a.usage_count
  idle : w.reserved = []

/-- The same while session `i` works: the open reservations are its own. -/
structure World.Busy (i : Nat) (w : World) : Prop where
  keys : w.db.Keys
  single : ∀ a ∈ w.db.authorizations, a.max_usage = 1 ∧ 0 ≤ a.usage_count
  reserved : ∀ r ∈ w.reserved, r.session = i ∧ 0 ≤ r.usage_count

/-- An authorization enters the table unused and single-use. -/
def Write.MintsFresh (x : Write) : Prop :=
  ∀ a, x = .insertAuthorization a → a.max_usage = 1 ∧ a.usage_count = 0

theorem Request.Allows.mintsFresh {r : Request} {x : Write} (h : r.Allows x) : x.MintsFresh := by
  rintro a rfl
  rcases h with hlogs | hmay
  · exact absurd hlogs (by simp [Write.Logs])
  · cases r with
    | submit_intent ctx req => simpa [Request.mayWrite, Write.Mints] using hmay
    | mfa_verify req => simpa [Request.mayWrite, Write.Mints] using hmay
    | consume ctx id token => exact absurd hmay nofun
    | revoke_authorization ctx id token => exact absurd hmay nofun
    | webhook raw signature => exact absurd hmay nofun
    | refund ctx id req => exact absurd hmay nofun
    | reconcile ctx id token => exact absurd hmay nofun
    | batch n => exact absurd hmay nofun
    | _ => exact absurd hmay (by simp [Request.mayWrite, Write.Enrols])

theorem keys_stable (P : Write → Prop) : Stable P DB.Keys where
  write := fun _ _ _ _ h hk => apply_keys h hk
  use := by
    intro db as hterms hk
    refine ⟨hk.agents, hk.agent_pks, hk.intents, hk.slots, ?_⟩
    have hid : ∀ bs : List BoundedAuthorization, bs.map BoundedAuthorization.authorization_id =
        (bs.map BoundedAuthorization.terms).map BoundedAuthorization.authorization_id := by
      intro bs
      rw [List.map_map]
      rfl
    show (as.map _).Nodup
    rw [hid as, hterms, ← hid]
    exact hk.authorizations

namespace World

variable {w : World} {i : Nat}

theorem Orderly.busy (h : w.Orderly) (i : Nat) : w.Busy i :=
  ⟨h.keys, h.single, fun r hr => by rw [h.idle] at hr; exact absurd hr List.not_mem_nil⟩

theorem Busy.rollback (h : w.Busy i) : (w.rollback i).Orderly where
  keys := (keys_stable fun _ => True).rollback i h.keys
  single := by
    intro a' ha'
    obtain ⟨a, ha, hsame, hother, hnamed⟩ := undo_rows _ w a' ha'
    obtain ⟨hmax, husage⟩ := h.single a ha
    refine ⟨by rw [hsame]; exact hmax, ?_⟩
    by_cases hr : ∃ r ∈ w.reserved.filter (fun r => decide (r.session = i)),
        r.authorization_id = a.authorization_id
    · obtain ⟨r, hr, _, heq⟩ := hnamed hr
      rw [heq]
      exact (h.reserved r (List.mem_of_mem_filter hr)).2
    · rw [hother fun r hmem hid => hr ⟨r, hmem, hid⟩]
      exact husage
  idle := by
    rw [rollback_reserved]
    rw [List.filter_eq_nil_iff]
    intro r hr
    simp [(h.reserved r hr).1]

theorem Orderly.of_release {db : DB} (hkeys : db.Keys)
    (hsingle : ∀ a ∈ db.authorizations, a.max_usage = 1 ∧ 0 ≤ a.usage_count) (h : w.Busy i) :
    ({ w with db := db }.release i).Orderly where
  keys := hkeys
  single := hsingle
  idle := by
    show w.reserved.filter _ = []
    rw [List.filter_eq_nil_iff]
    intro r hr
    simp [(h.reserved r hr).1]

theorem Busy.exec {s : Stmt} (hs : ∀ ws, s = .commit ws → ∀ x ∈ ws, x.MintsFresh) (h : w.Busy i) :
    (w.exec i s).Busy i := by
  cases s with
  | select => exact h
  | fresh => exact ⟨h.keys, h.single, h.reserved⟩
  | rollback => exact h.rollback.busy i
  | try_gate g =>
    unfold World.exec
    dsimp only
    split
    · exact ⟨h.keys, h.single, h.reserved⟩
    · exact h.rollback.busy i
  | reserve id spend =>
    unfold World.exec
    dsimp only
    split
    · refine ⟨(keys_stable fun _ => True).use w.db _ (setUsage_terms w id spend.usage) h.keys, ?_, ?_⟩
      · intro a' ha'
        obtain ⟨a, ha, rfl⟩ := mem_updateWhere.mp ha'
        obtain ⟨hmax, husage⟩ := h.single a ha
        split
        · refine ⟨hmax, ?_⟩
          cases spend with
          | consume => exact Int.add_nonneg husage (by decide)
          | revoke =>
            show 0 ≤ a.max_usage
            omega
        · exact ⟨hmax, husage⟩
      · intro r hr
        rcases List.mem_cons.mp hr with rfl | hr
        · refine ⟨rfl, ?_⟩
          show 0 ≤ w.usageOf id
          unfold World.usageOf
          cases hfound : w.db.authorizations.find? fun a => a.authorization_id == id with
          | none => exact Int.le_refl 0
          | some a => exact (h.single a (List.mem_of_find?_eq_some hfound)).2
        · exact h.reserved r hr
    · exact h
  | commit ws =>
    show (w.commit i ws).Busy i
    unfold World.commit
    split
    · next db' hdb =>
      refine (Orderly.of_release ?_ ?_ h).busy i
      · exact applyAll_keeps_all (keys_stable fun _ => True).write (fun _ _ => trivial) hdb h.keys
      · refine applyAll_keeps_all (K := fun db => ∀ a ∈ db.authorizations,
          a.max_usage = 1 ∧ 0 ≤ a.usage_count) ?_ (hs ws rfl) hdb h.single
        intro db db' x hx hap hK a ha
        rcases apply_authorizations hap with ⟨b, rfl, heq, _⟩ | heq
        · rw [heq] at ha
          rcases List.mem_append.mp ha with ha | ha
          · exact hK a ha
          · obtain rfl := List.mem_singleton.mp ha
            obtain ⟨hmax, huse⟩ := hx _ rfl
            exact ⟨hmax, huse ▸ Int.le_refl 0⟩
        · exact hK a (heq ▸ ha)
    · exact h.rollback.busy i

end World

namespace Server

variable {H : Host} {w : World}

/-- A request leaves an orderly world orderly. -/
theorem serve_orderly (h : w.Orderly) (r : Request) (answers : List Answer) :
    (serve H r answers w).store.Orderly := by
  refine serve_spec (Q := fun w' _ _ => w'.Orderly) answers ?_
  refine Prog.wp_mono (fun w' _ _ hbusy => World.Busy.rollback hbusy.1)
    ((handler_writes H r).wp (K := World.Busy 0) ?_ (h.busy 0) [])
  exact fun w' s hs hb => hb.exec fun ws hws x hx => (hs ws hws x hx).mintsFresh

theorem step_orderly (h : w.Orderly) (s : Step) : (step H w s).Orderly := by
  cases s with
  | request r answers => exact serve_orderly h r answers
  | tick d => exact ⟨h.keys, h.single, h.idle⟩

theorem run_orderly (h : w.Orderly) (steps : List Step) : (run H w steps).Orderly :=
  run_keeps (I := World.Orderly) (fun _ s hw => step_orderly hw s) steps w h

end Server

/-! ## Who is asking -/

/-- What `_authenticate` has checked in a world. -/
structure Authenticates (H : Host) (w : World) (token : String) (expected : Option String)
    (a : Authenticated) : Prop where
  claims : H.decode_session_token w.clock token = some a.claims
  expected : present expected = true → a.claims.sub = expected
  agent : w.db.agents.find? (fun b => some b.agent_id == a.claims.sub) = some a.agent
  active : a.agent.status = .active
  credential : ∃ c ∈ w.db.credentials, a.claims.credential_id = some c.credential_id ∧
    c.revoked = false ∧ w.clock ≤ c.expires_at
  parent : ∃ p, parent_for w.db a.agent = some p ∧ p.status = .active
  valid : ∀ v, a.agent.valid_until = some v → w.clock ≤ v
  pending : a.pending.OnlyProofs

section
variable {H : Host} {w : World} {i : Nat} {calls : List (Call × Option Answer)}

/-- A part that only reads, run alone. -/
theorem reads_wp {α : Type} {R : α → Prop} {p : Handler α} (h : p.Reads R) :
    p.Wp (World.exec i) (fun w' c r => w' = w ∧ c = calls ∧ ∀ a, r = some a → R a) calls w :=
  Prog.wp_of_quiet (I := fun w' => w' = w) (fun _ _ hs hw => by rw [hs]; exact hw) h rfl

/-- The request is answered with an HTTP error. -/
def Reply.IsError (r : Reply) : Prop := ∃ x, r = .error x

theorem authenticate_wp (ctx : RequestContext) (token : String) (expected : Option String) :
    (authenticate H ctx token expected).Wp (World.exec i)
      (fun w' c r => w' = w ∧ c = calls ∧
        (∀ a, r = some (.ok a) → Authenticates H w token expected a) ∧
        ∀ e, r = some (.error e) → e.IsError) calls w := by
  have hraise : ∀ x : HttpError, w = w ∧ calls = calls ∧ (∀ a,
      some (Except.error (Reply.error x)) = some (.ok a) → Authenticates H w token expected a) ∧
      ∀ e, some (Except.error (Reply.error x) : Except Reply Authenticated) = some (.error e) →
        e.IsError :=
    fun x => ⟨rfl, rfl, fun a h => absurd h (by simp),
      fun e h => ⟨x, (Except.error.inj (Option.some.inj h)).symm⟩⟩
  refine wp_now ?_
  split
  · exact hraise _
  next claims hclaims =>
  split
  · exact hraise _
  next hexpected =>
  refine wp_query ?_
  split
  · exact hraise _
  next agent hagent =>
  split
  · exact hraise _
  next hactive =>
  refine wp_query (wp_now ?_)
  split
  · exact hraise _
  next hcred =>
  refine wp_query ?_
  split
  · exact hraise _
  next hparent =>
  split
  · exact hraise _
  next hvalid =>
  have hauth : ∀ pending : Session, pending.OnlyProofs →
      Authenticates H w token expected ⟨agent, claims, pending⟩ := by
    intro pending hpending
    refine ⟨hclaims, fun hp => ?_, hagent, by simpa using hactive, ?_, ?_, ?_, hpending⟩
    · simpa [hp] using hexpected
    · simp only [Bool.not_eq_true', Bool.not_eq_false, Option.any_eq_true, Bool.and_eq_true,
        decide_eq_true_eq] at hcred
      obtain ⟨c, hc, hrevoked, hexpires⟩ := hcred
      have hid : some c.credential_id = claims.credential_id := by
        simpa using List.find?_some hc
      exact ⟨c, List.mem_of_find?_eq_some hc, hid.symm, by simpa using hrevoked, hexpires⟩
    · simp only [Bool.not_eq_true', Bool.not_eq_false, Option.any_eq_true,
        decide_eq_true_eq] at hparent
      exact hparent
    · intro v hv
      rw [show agent.valid_until = some v from hv] at hvalid
      simpa using hvalid
  split
  · refine ⟨rfl, rfl, ?_, fun e h => absurd h (by simp)⟩
    rintro a ⟨rfl⟩
    exact hauth _ fun x hx => absurd hx List.not_mem_nil
  split
  · exact hraise _
  refine wp_now ?_
  split
  · exact hraise _
  refine Prog.wp_bind (Prog.wp_mono ?_ (reads_wp (verify_request_proof_reads H agent _ ctx token)))
  rintro w' c r ⟨rfl, rfl, hr⟩
  cases r with
  | none => exact ⟨rfl, rfl, fun a h => absurd h (by simp), fun e h => absurd h (by simp)⟩
  | some burnt =>
    cases burnt with
    | none => exact hraise _
    | some pending =>
      refine ⟨rfl, rfl, ?_, fun e h => absurd h (by simp)⟩
      rintro a ⟨rfl⟩
      exact hauth pending (hr _ rfl pending rfl)

/-- An endpoint that starts with a check. -/
theorem wp_admin {Q : World → List (Call × Option Answer) → Option Reply → Prop} {p : Except Reply Unit}
    {k : Unit → Handler Reply} (hraise : ∀ e, p = .error e → Q w calls (some e))
    (hk : (k ()).Wp (World.exec i) Q calls w) :
    (Handler.attempt (pure p) k).Wp (World.exec i) Q calls w := by
  cases p with
  | error e => exact hraise e rfl
  | ok u => exact hk

theorem resolve_session_token_error {token authorization : String} {e : Reply}
    (h : resolve_session_token H token authorization = .error e) : e.IsError := by
  unfold resolve_session_token at h
  extract_lets header_token at h
  split at h
  · exact ⟨_, (Except.error.inj h).symm⟩
  · exact absurd h (by simp)

/-- What most endpoints start with: the session token, then the session. -/
theorem wp_authenticated {Q : World → List (Call × Option Answer) → Option Reply → Prop}
    {ctx : RequestContext} {token : String} {expected : Option String}
    {k : Authenticated → Handler Reply} (hdied : Q w calls none)
    (hraise : ∀ x, Q w calls (some (.error x)))
    (hk : ∀ tok a, resolve_session_token H token ctx.authorization = .ok tok →
      Authenticates H w tok expected a → (k a).Wp (World.exec i) Q calls w) :
    (Handler.attempt (pure (resolve_session_token H token ctx.authorization)) fun token =>
      Handler.attempt (authenticate H ctx token expected) k).Wp (World.exec i) Q calls w := by
  cases htok : resolve_session_token H token ctx.authorization with
  | error e =>
    obtain ⟨x, rfl⟩ := resolve_session_token_error htok
    exact hraise x
  | ok tok =>
    show (Handler.attempt (authenticate H ctx tok expected) k).Wp _ _ _ _
    refine Prog.wp_bind (Prog.wp_mono ?_ (authenticate_wp ctx tok expected))
    rintro w' c r ⟨rfl, rfl, hr, he⟩
    match r with
    | none => exact hdied
    | some (.error e) =>
      obtain ⟨x, rfl⟩ := he e rfl
      exact hraise x
    | some (.ok a) => exact hk tok a htok (hr a rfl)

end

end Paari
