import Paari.DelegationUse
import Paari.Ownership

/-!
# The terms of a protocol 1.0 delegation

Registration accepts a delegation that grants something, up to a positive limit, for at most
366 days. `InTerms` says that the agents enrolled so still stand in those terms, and that no
live credential of theirs outlasts the delegation. Every request keeps it but a rotation: that
one takes the same fields from a document of which it checks none of this. A document within
the terms keeps it too.
-/

namespace Paari

open Atomic
open Host (SECOND DAY CLOCK_SKEW_LEEWAY_SECONDS)

/-! ## The terms -/

/-- The longest a delegation lasts from the instant it is accepted: the protocol's maximum,
and the skew allowed of the clock that issued it. -/
def LIFETIME : Int := 366 * DAY + CLOCK_SKEW_LEEWAY_SECONDS * SECOND

/-- The id of a delegation is on record. -/
def DB.Records (db : DB) (id : String) : Prop := ∃ r ∈ db.delegations, r.delegation_id = id

instance (db : DB) (id : String) : Decidable (db.Records id) :=
  inferInstanceAs (Decidable (∃ r ∈ db.delegations, r.delegation_id = id))

/-- The agent stands in the terms of a delegation accepted at the instant that `T` tells;
its live credentials end with it, those in `spared` apart. -/
structure Agent.InTerms (T : String → Option Instant) (spared : List String) (cs : List Credential)
    (a : Agent) : Prop where
  capabilities : ∃ xs, a.granted_capabilities = .list xs ∧ xs ≠ []
  limit : 0 < a.payment_limit_minor_units
  lifetime : ∃ v t, a.valid_until = some v ∧ T a.delegation_id = some t ∧ v ≤ t + LIFETIME ∧
    ∀ c ∈ cs, c.agent_pk = a.id → c.revoked = false → c.credential_id ∉ spared → c.expires_at ≤ v

/-- Every protocol 1.0 agent stands in its terms; every agent has a delegation on record, every
credential an agent. -/
structure DB.InTerms (T : String → Option Instant) (spared : List String) (db : DB) : Prop where
  keys : db.Keys
  agents : ∀ a ∈ db.agents, a.protocol_version = some "1.0" → a.InTerms T spared db.credentials
  known : ∀ a ∈ db.agents, db.Records a.delegation_id
  issued : ∀ c ∈ db.credentials, ∃ a ∈ db.agents, a.id = c.agent_pk

/-- An id that is not on record yet is accepted now. -/
def stamp (T : String → Option Instant) (db : DB) (now : Instant) (id : String) : Option Instant :=
  if db.Records id then T id else some now

section
variable {T T' : String → Option Instant} {spared : List String} {db db' : DB} {x : Write}
  {a : Agent} {c : Credential} {id : String}

theorem records_apply (h : db.apply x = some db') (hid : db.Records id) : db'.Records id := by
  obtain ⟨r, hr, heq⟩ := hid
  rcases apply_delegations h with ⟨_, -, hrows, -⟩ | ⟨-, hrows⟩
  · exact ⟨r, by rw [hrows]; exact List.mem_append_left _ hr, heq⟩
  · exact ⟨r, by rw [hrows]; exact hr, heq⟩

theorem DB.InTerms.congr (h : db.InTerms T spared) (hT : ∀ id, db.Records id → T' id = T id) :
    db.InTerms T' spared where
  keys := h.keys
  agents := by
    intro a ha hv1
    obtain ⟨hcaps, hlimit, v, t, hv, ht, hrest⟩ := h.agents a ha hv1
    exact ⟨hcaps, hlimit, v, t, hv, (hT _ (h.known a ha)).trans ht, hrest⟩
  known := h.known
  issued := h.issued

/-- A write that may set what the terms are about. -/
def Write.Redelegates (x : Write) : Prop :=
  (∃ a, x = .insertAgent a) ∨ (∃ id r, x = .rotateAgent id r) ∨ ∃ c, x = .insertCredential c

/-- Fewer or shorter live credentials are no trouble. -/
theorem Agent.InTerms.mono {cs cs' : List Credential} {spared' : List String}
    (h : a.InTerms T spared cs) (hcs : ∀ c ∈ cs', c.revoked = false → c.credential_id ∉ spared' →
      c.agent_pk = a.id → c ∈ cs ∧ c.credential_id ∉ spared) : a.InTerms T spared' cs' where
  capabilities := h.capabilities
  limit := h.limit
  lifetime := by
    obtain ⟨v, t, hv, ht, hle, hends⟩ := h.lifetime
    refine ⟨v, t, hv, ht, hle, fun c hc hpk hlive hid => ?_⟩
    obtain ⟨hmem, hspared⟩ := hcs c hc hlive hid hpk
    exact hends c hmem hpk hlive hspared

/-- What any other write leaves of the credentials. -/
theorem credentials_kept (hx : ¬x.Redelegates) (h : db.apply x = some db') :
    ∀ c ∈ db'.credentials, ∃ c₀ ∈ db.credentials, c₀.agent_pk = c.agent_pk ∧
      c₀.credential_id = c.credential_id ∧ (c.revoked = false → c₀ = c) := by
  intro c hc
  rcases apply_credentials h with ⟨d, rfl, -, -⟩ | ⟨pk, rfl, heq⟩ | ⟨cid, by_, rfl, heq⟩ | heq
  · exact absurd (.inr (.inr ⟨d, rfl⟩)) hx
  · rw [heq] at hc
    obtain ⟨c₀, hc₀, rfl⟩ := mem_updateWhere.mp hc
    refine ⟨c₀, hc₀, ?_⟩
    split
    · exact ⟨rfl, rfl, fun h => absurd h nofun⟩
    · exact ⟨rfl, rfl, fun _ => rfl⟩
  · rw [heq] at hc
    obtain ⟨c₀, hc₀, rfl⟩ := mem_updateWhere.mp hc
    refine ⟨c₀, hc₀, ?_⟩
    split
    · exact ⟨rfl, rfl, fun h => absurd h nofun⟩
    · exact ⟨rfl, rfl, fun _ => rfl⟩
  · rw [heq] at hc
    exact ⟨c, hc, rfl, rfl, fun _ => rfl⟩

/-- And of the agents. -/
theorem agents_kept (hx : ¬x.Redelegates) (h : db.apply x = some db') :
    (∀ a ∈ db'.agents, ∃ a₀ ∈ db.agents, ∃ status, a = { a₀ with status := status }) ∧
      ∀ a₀ ∈ db.agents, ∃ a ∈ db'.agents, a.id = a₀.id := by
  rcases apply_agents h with ⟨b, rfl, -, -⟩ | ⟨id, r, rfl, -⟩ | ⟨id, rfl, heq⟩ | heq
  · exact absurd (.inl ⟨b, rfl⟩) hx
  · exact absurd (.inr (.inl ⟨id, r, rfl⟩)) hx
  · rw [heq]
    constructor
    · intro a ha
      obtain ⟨a₀, ha₀, rfl⟩ := mem_updateWhere.mp ha
      split
      · exact ⟨a₀, ha₀, .revoked, rfl⟩
      · exact ⟨a₀, ha₀, a₀.status, rfl⟩
    · intro a₀ ha₀
      refine ⟨_, mem_updateWhere.mpr ⟨a₀, ha₀, rfl⟩, ?_⟩
      split <;> rfl
  · rw [heq]
    exact ⟨fun a ha => ⟨a, ha, a.status, rfl⟩, fun a ha => ⟨a, ha, rfl⟩⟩

theorem inTerms_other (hx : ¬x.Redelegates) (h : db.apply x = some db')
    (hterms : db.InTerms T spared) : db'.InTerms T spared := by
  have hcreds := credentials_kept hx h
  obtain ⟨hfrom, hto⟩ := agents_kept hx h
  refine ⟨apply_keys h hterms.keys, fun a ha hv1 => ?_, fun a ha => ?_, fun c hc => ?_⟩
  · obtain ⟨a₀, ha₀, status, rfl⟩ := hfrom a ha
    have hold : ({ a₀ with status := status } : Agent).InTerms T spared db.credentials := by
      obtain ⟨hcaps, hlimit, hlife⟩ := hterms.agents a₀ ha₀ hv1
      exact ⟨hcaps, hlimit, hlife⟩
    refine hold.mono fun c hc hlive hid _ => ?_
    obtain ⟨c₀, hc₀, -, -, hsame⟩ := hcreds c hc
    rw [← hsame hlive] at hid ⊢
    exact ⟨hc₀, hid⟩
  · obtain ⟨a₀, ha₀, status, rfl⟩ := hfrom a ha
    exact records_apply h (hterms.known a₀ ha₀)
  · obtain ⟨c₀, hc₀, hpk, -, -⟩ := hcreds c hc
    obtain ⟨a₀, ha₀, hid⟩ := hterms.issued c₀ hc₀
    obtain ⟨a, ha, hsame⟩ := hto a₀ ha₀
    exact ⟨a, ha, hsame.trans (hid.trans hpk)⟩

/-- A spared credential that is revoked need not be spared. -/
theorem inTerms_revoke {by_ : Option String} (h : db.apply (.revokeCredential id by_) = some db')
    (hterms : db.InTerms T (id :: spared)) : db'.InTerms T spared := by
  have hother : ¬(Write.revokeCredential id by_).Redelegates := by simp [Write.Redelegates]
  have hkept := inTerms_other hother h hterms
  refine ⟨hkept.keys, fun a ha hv1 => ?_, hkept.known, hkept.issued⟩
  refine (hkept.agents a ha hv1).mono fun c hc hlive hid _ => ⟨hc, fun hmem => ?_⟩
  rcases List.mem_cons.mp hmem with heq | hmem
  · have hrows : db'.credentials = updateWhere (fun c => c.credential_id == id) (fun c =>
        { c with revoked := true, superseded_by := by_.orElse fun _ => c.superseded_by }) db.credentials := by
      rw [← Option.some.inj h]
    rw [hrows] at hc
    obtain ⟨c₀, -, hset⟩ := mem_updateWhere.mp hc
    by_cases hid₀ : (c₀.credential_id == id) = true
    · rw [if_pos hid₀] at hset
      rw [hset] at hlive
      exact absurd hlive nofun
    · rw [if_neg hid₀] at hset
      rw [hset] at heq
      exact hid₀ (beq_iff_eq.mpr heq)
  · exact hid hmem

theorem inTerms_insertAgent (h : db.apply (.insertAgent a) = some db') (hterms : db.InTerms T spared)
    (hknown : db.Records a.delegation_id)
    (ha : a.protocol_version = some "1.0" → (∃ xs, a.granted_capabilities = .list xs ∧ xs ≠ []) ∧
      0 < a.payment_limit_minor_units ∧
      ∃ v t, a.valid_until = some v ∧ T a.delegation_id = some t ∧ v ≤ t + LIFETIME) :
    db'.InTerms T spared ∧ a ∈ db'.agents := by
  have hcreds : db'.credentials = db.credentials := (Frame.of_apply h).credentials nofun
  obtain ⟨rows, hins, heq⟩ := Option.bind_eq_some_iff.mp h
  obtain ⟨rfl, hclash⟩ := insertUnique_eq hins
  have hrows : db'.agents = db.agents ++ [a] := by rw [← Option.some.inj heq]
  refine ⟨⟨apply_keys h hterms.keys, fun b hb hv1 => ?_, fun b hb => ?_, fun c hc => ?_⟩, ?_⟩
  · rw [hcreds]
    rw [hrows] at hb
    rcases List.mem_append.mp hb with hb | hb
    · exact hterms.agents b hb hv1
    · obtain rfl := List.mem_singleton.mp hb
      obtain ⟨hcaps, hlimit, v, t, hv, ht, hle⟩ := ha hv1
      refine ⟨hcaps, hlimit, v, t, hv, ht, hle, fun c hc hpk _ _ => ?_⟩
      -- no credential can name an agent that was not there
      obtain ⟨b', hb', hid⟩ := hterms.issued c hc
      have hclash := hclash b' hb'
      rw [hid, hpk, beq_self_eq_true, Bool.true_or] at hclash
      exact absurd hclash nofun
  · rw [hrows] at hb
    rcases List.mem_append.mp hb with hb | hb
    · exact records_apply h (hterms.known b hb)
    · obtain rfl := List.mem_singleton.mp hb
      exact records_apply h hknown
  · rw [hcreds] at hc
    obtain ⟨b, hb, hid⟩ := hterms.issued c hc
    exact ⟨b, by rw [hrows]; exact List.mem_append_left _ hb, hid⟩
  · rw [hrows]
    exact List.mem_append_right _ List.mem_cons_self

theorem inTerms_insertCredential (h : db.apply (.insertCredential c) = some db')
    (hterms : db.InTerms T spared) (ha : a ∈ db.agents) (hpk : c.agent_pk = a.id)
    (hends : a.protocol_version = some "1.0" → ∀ v, a.valid_until = some v → c.expires_at ≤ v) :
    db'.InTerms T spared := by
  have hagents : db'.agents = db.agents := (Frame.of_apply h).agents nofun
  obtain ⟨rows, hins, heq⟩ := Option.bind_eq_some_iff.mp h
  obtain ⟨rfl, -⟩ := insertUnique_eq hins
  have hrows : db'.credentials = db.credentials ++ [c] := by rw [← Option.some.inj heq]
  refine ⟨apply_keys h hterms.keys, fun b hb hv1 => ?_, fun b hb => ?_, fun d hd => ?_⟩
  · rw [hagents] at hb
    obtain ⟨hcaps, hlimit, v, t, hv, ht, hle, hold⟩ := hterms.agents b hb hv1
    refine ⟨hcaps, hlimit, v, t, hv, ht, hle, fun d hd hpk' hlive hid => ?_⟩
    rw [hrows] at hd
    rcases List.mem_append.mp hd with hd | hd
    · exact hold d hd hpk' hlive hid
    · obtain rfl := List.mem_singleton.mp hd
      obtain rfl := List.inj_on_of_nodup_map hterms.keys.agent_pks ha hb (hpk.symm.trans hpk')
      exact hends hv1 v hv
  · rw [hagents] at hb
    exact records_apply h (hterms.known b hb)
  · rw [hrows] at hd
    rcases List.mem_append.mp hd with hd | hd
    · obtain ⟨b, hb, hid⟩ := hterms.issued d hd
      exact ⟨b, by rw [hagents]; exact hb, hid⟩
    · obtain rfl := List.mem_singleton.mp hd
      exact ⟨a, by rw [hagents]; exact ha, hpk.symm⟩

/-- A rotation onto a document in the terms, whose caller revokes the old credentials. -/
theorem inTerms_rotateAgent {r : Rotation} (h : db.apply (.rotateAgent a.id r) = some db')
    (hterms : db.InTerms T []) (ha : a ∈ db.agents) (hknown : db.Records r.delegation_id)
    (hr : a.protocol_version = some "1.0" → (∃ xs, r.granted_capabilities = .list xs ∧ xs ≠ []) ∧
      0 < r.payment_limit_minor_units ∧
      ∃ t, T r.delegation_id = some t ∧ r.valid_until ≤ t + LIFETIME)
    (hspared : ∀ c ∈ db.credentials, c.agent_pk = a.id → c.revoked = false → c.credential_id ∈ spared) :
    db'.InTerms T spared ∧ a.rotate r ∈ db'.agents := by
  have hcreds : db'.credentials = db.credentials := (Frame.of_apply h).credentials nofun
  have hrows : db'.agents = updateWhere (fun b => b.id == a.id) (Agent.rotate r) db.agents := by
    rw [← Option.some.inj h]
    rfl
  have hnew : a.rotate r ∈ db'.agents := by
    rw [hrows]
    exact mem_updateWhere.mpr ⟨a, ha, (if_pos (beq_self_eq_true _)).symm⟩
  refine ⟨⟨apply_keys h hterms.keys, fun b hb hv1 => ?_, fun b hb => ?_, fun c hc => ?_⟩, hnew⟩
  · rw [hcreds]
    rw [hrows] at hb
    obtain ⟨b₀, hb₀, rfl⟩ := mem_updateWhere.mp hb
    by_cases hid : (b₀.id == a.id) = true
    · rw [if_pos hid] at hv1 ⊢
      -- the rotated agent: its live credentials are the spared ones, which the caller sees to
      obtain rfl := List.inj_on_of_nodup_map hterms.keys.agent_pks hb₀ ha (beq_iff_eq.mp hid)
      obtain ⟨hcaps, hlimit, t, ht, hle⟩ := hr hv1
      exact ⟨hcaps, hlimit, _, t, rfl, ht, hle, fun c hc hpk hlive hnot =>
        absurd (hspared c hc hpk hlive) hnot⟩
    · rw [if_neg hid] at hv1 ⊢
      exact (hterms.agents b₀ hb₀ hv1).mono fun c hc _ _ _ => ⟨hc, List.not_mem_nil⟩
  · rw [hrows] at hb
    obtain ⟨b₀, hb₀, rfl⟩ := mem_updateWhere.mp hb
    split
    · exact records_apply h hknown
    · exact records_apply h (hterms.known b₀ hb₀)
  · rw [hcreds] at hc
    obtain ⟨b, hb, hid⟩ := hterms.issued c hc
    refine ⟨_, by rw [hrows]; exact mem_updateWhere.mpr ⟨b, hb, rfl⟩, ?_⟩
    rw [← hid]
    split <;> rfl

/-- The old credentials, revoked one by one. -/
theorem inTerms_revokes {by_ : Option String} {cs : List Credential} {rest : List Write} :
    ∀ {db db' : DB}, db.InTerms T (cs.map Credential.credential_id) →
      db.applyAll ((cs.map fun c => .revokeCredential c.credential_id by_) ++ rest) = .ok db' →
      ∃ mid : DB, mid.InTerms T [] ∧ mid.agents = db.agents ∧ mid.applyAll rest = .ok db' := by
  induction cs with
  | nil => exact fun {db _} hterms h => ⟨db, hterms, rfl, h⟩
  | cons c cs ih =>
    intro db db' hterms h
    obtain ⟨d, hd, hrest⟩ := applyAll_cons h
    obtain ⟨mid, hmid, hagents, hrest⟩ := ih (inTerms_revoke hd hterms) hrest
    exact ⟨mid, hmid, hagents.trans ((Frame.of_apply hd).agents nofun), hrest⟩

/-- What is only logged keeps the terms. -/
theorem inTerms_logs {ws : Session} (hws : ∀ x ∈ ws, x.Logs) (hterms : db.InTerms T [])
    (h : db.applyAll ws = .ok db') : db'.InTerms T [] := by
  refine applyAll_keeps_all (P := Write.Logs) (fun d d' x hx hap hd => inTerms_other ?_ hap hd) hws h hterms
  obtain ⟨e, rfl⟩ | ⟨p, rfl⟩ := hx <;> simp [Write.Redelegates]

end

/-! ## The three endpoints -/

/-- The documents a rotation may be given. -/
structure RotationInTerms (H : Host) (d : Json) (now : Instant) : Prop where
  capabilities : ∀ kvs v, d = .dict kvs → kvs.lookup "granted_capabilities" = some v →
    ∃ xs, v = .list xs ∧ xs ≠ []
  limit : ∀ kvs v n, d = .dict kvs → kvs.lookup "payment_limit_minor_units" = some v →
    bindInteger v = some n → 0 < n
  lifetime : ∀ issued expires, rotationTimes H d = .ok (issued, expires) → expires ≤ now + LIFETIME

section
variable {T : String → Option Instant} {db db' : DB} {now : Instant}

/-- An id that goes on record now is accepted now. -/
theorem stamp_new {r : DelegationRecord} (h : db.apply (.insertDelegation r) = some db') :
    stamp T db now r.delegation_id = some now ∧ db'.Records r.delegation_id := by
  rcases apply_delegations h with ⟨r', heq, hrows, hnew⟩ | ⟨hne, -⟩
  · obtain rfl := Write.insertDelegation.inj heq
    refine ⟨if_neg fun hid => ?_, r, ?_, rfl⟩
    · obtain ⟨r', hr', heq⟩ := hid
      exact hnew r' hr' heq
    · rw [hrows]
      exact List.mem_append_right _ List.mem_cons_self
  · exact absurd rfl (hne r)

/-- The transaction of a protocol 1.0 registration. -/
theorem inTerms_enrol {r : DelegationRecord} {a : Agent} {c : Credential} {log : Session}
    (hterms : db.InTerms (stamp T db now) []) (hlog : ∀ x ∈ log, x.Logs)
    (hid : a.delegation_id = r.delegation_id) (hpk : c.agent_pk = a.id)
    (hcaps : ∃ xs, a.granted_capabilities = .list xs ∧ xs ≠ []) (hlimit : 0 < a.payment_limit_minor_units)
    {v : Instant} (hv : a.valid_until = some v) (hle : v ≤ now + LIFETIME) (hends : c.expires_at ≤ v)
    (h : db.applyAll ([.insertDelegation r, .insertAgent a, .insertCredential c] ++ log) = .ok db') :
    db'.InTerms (stamp T db now) [] := by
  obtain ⟨d₁, h₁, hrest⟩ := applyAll_cons h
  obtain ⟨d₂, h₂, hrest⟩ := applyAll_cons hrest
  obtain ⟨d₃, h₃, hrest⟩ := applyAll_cons hrest
  obtain ⟨hstamp, hrecorded⟩ := @stamp_new T db d₁ now r h₁
  have hterms₁ := inTerms_other (by simp [Write.Redelegates]) h₁ hterms
  rw [← hid] at hstamp hrecorded
  obtain ⟨hterms₂, hmem⟩ := inTerms_insertAgent h₂ hterms₁ hrecorded fun _ =>
    ⟨hcaps, hlimit, v, now, hv, hstamp, hle⟩
  have hterms₃ := inTerms_insertCredential h₃ hterms₂ hmem hpk fun _ v' hv' => by
    rw [← Option.some.inj (hv.symm.trans hv')]
    exact hends
  exact inTerms_logs hlog hterms₃ hrest

/-- The transaction of a rotation. -/
theorem inTerms_rotation {d : DelegationRecord} {a : Agent} {r : Rotation} {c : Credential}
    {by_ : Option String} {log : Session} (hterms : db.InTerms (stamp T db now) [])
    (hlog : ∀ x ∈ log, x.Logs) (ha : a ∈ db.agents) (hid : d.delegation_id = r.delegation_id)
    (hpk : c.agent_pk = a.id) (hends : c.expires_at ≤ r.valid_until)
    (hr : a.protocol_version = some "1.0" → (∃ xs, r.granted_capabilities = .list xs ∧ xs ≠ []) ∧
      0 < r.payment_limit_minor_units ∧ r.valid_until ≤ now + LIFETIME)
    (h : db.applyAll ([.insertDelegation d, .rotateAgent a.id r] ++
      (((db.credentials.filter fun c => c.agent_pk == a.id && !c.revoked).map fun c =>
        .revokeCredential c.credential_id by_) ++ .insertCredential c :: log)) = .ok db') :
    db'.InTerms (stamp T db now) [] := by
  obtain ⟨d₁, h₁, hrest⟩ := applyAll_cons h
  obtain ⟨d₂, h₂, hrest⟩ := applyAll_cons hrest
  obtain ⟨hstamp, hrecorded⟩ := @stamp_new T db d₁ now d h₁
  have hterms₁ := inTerms_other (by simp [Write.Redelegates]) h₁ hterms
  have hagents : d₁.agents = db.agents := (Frame.of_apply h₁).agents nofun
  have hcreds : d₁.credentials = db.credentials := (Frame.of_apply h₁).credentials nofun
  rw [hid] at hstamp hrecorded
  have hheld : a ∈ d₁.agents := by
    rw [hagents]
    exact ha
  -- all the agent's live credentials are about to be revoked
  have hspared : ∀ c ∈ d₁.credentials, c.agent_pk = a.id → c.revoked = false → c.credential_id ∈
      (db.credentials.filter fun c => c.agent_pk == a.id && !c.revoked).map Credential.credential_id := by
    intro c hc hpk hlive
    rw [hcreds] at hc
    refine List.mem_map.mpr ⟨c, List.mem_filter.mpr ⟨hc, ?_⟩, rfl⟩
    rw [hpk, hlive, beq_self_eq_true]
    rfl
  obtain ⟨hterms₂, hmem⟩ := inTerms_rotateAgent h₂ hterms₁ hheld hrecorded (fun hv1 => by
    obtain ⟨hcaps, hlimit, hle⟩ := hr hv1
    exact ⟨hcaps, hlimit, now, hstamp, hle⟩) hspared
  obtain ⟨d₃, hterms₃, hsame, hrest⟩ := inTerms_revokes hterms₂ hrest
  obtain ⟨d₄, h₄, hrest⟩ := applyAll_cons hrest
  rw [← hsame] at hmem
  have hterms₄ := inTerms_insertCredential h₄ hterms₃ hmem hpk fun _ v hv => by
    rw [← Option.some.inj hv]
    exact hends
  exact inTerms_logs hlog hterms₄ hrest

theorem inTerms_stable : Stable (fun x => ¬x.Redelegates) fun db => db.InTerms T [] where
  write _ _ _ hx h hterms := inTerms_other hx h hterms
  use db as hshape hterms :=
    ⟨(keys_stable fun _ => False).use db as hshape hterms.keys, hterms.agents, hterms.known, hterms.issued⟩

end

section
variable {H : Host} {T : String → Option Instant} {w : World} {i : Nat} {calls : List (Call × Option Answer)}

/-- An attempt to commit, in a handler that ends with it. -/
theorem inTerms_commit {w' : World} {s : Session} {k : Unit → Handler Reply}
    {Q : World → List (Call × Option Answer) → Option Reply → Prop}
    (hstay : (w'.db.InTerms T []))
    (hQ : ∀ v c r, v.db.InTerms T [] → Q v c r)
    (hdone : ∀ db', w'.db.applyAll s = .ok db' → db'.InTerms T [] →
      (k ()).Wp (World.exec i) Q calls ({ w' with db := db' }.release i))
    (hs : ∀ db', w'.db.applyAll s = .ok db' → db'.InTerms T []) :
    (Handler.commit s >>= k).Wp (World.exec i) Q calls w' :=
  wp_commit (fun _ _ => hQ _ _ _ (inTerms_stable.rollback i hstay)) fun db' h => hdone db' h (hs db' h)

/-- What an endpoint is to keep. -/
abbrev KeepsTerms (T : String → Option Instant) : World → List (Call × Option Answer) → Option Reply → Prop :=
  fun w _ _ => w.db.InTerms T []

theorem enrol_v1_terms {parent : ParentAuthority} {agent_pub : String} {d : V1Delegation}
    (hterms : w.db.InTerms (stamp T w.db w.clock) []) (hcaps : d.granted_capabilities ≠ [])
    (hlimit : 0 < d.payment_limit_minor_units) (hle : d.expires ≤ w.clock + LIFETIME) :
    (enrol_v1 H parent agent_pub d).Wp (World.exec i) (KeepsTerms (stamp T w.db w.clock)) calls w := by
  refine wp_fresh (wp_fresh ?_)
  refine Prog.wp_bind (wp_fresh (wp_now (wp_now ?_)))
  rw [Prog.pure_eq, Prog.wp_ret]
  refine Prog.wp_bind (wp_record_audit (wp_record_audit ?_))
  rw [Prog.pure_eq, Prog.wp_ret]
  refine inTerms_commit hterms (fun _ _ _ h => h) (fun _ _ h => h) fun db' hdb => ?_
  rw [List.append_assoc] at hdb
  exact inTerms_enrol hterms (by simp [Write.Logs]) rfl rfl ⟨_, rfl, hcaps⟩ hlimit rfl hle
    (min_le_right _ _) hdb

theorem readV1_ok {d : Json} {issued expires : Instant} {v : V1Delegation}
    (h : readV1Delegation H d issued expires = some (.ok v)) :
    v.granted_capabilities ≠ [] ∧ 0 < v.payment_limit_minor_units ∧ v.expires = expires := by
  obtain ⟨granted, -, h⟩ := Option.bind_eq_some_iff.mp h
  obtain ⟨capabilities, -, h⟩ := Option.bind_eq_some_iff.mp h
  split at h
  · exact absurd h nofun
  next hsome =>
  obtain ⟨limit, -, h⟩ := Option.bind_eq_some_iff.mp h
  split at h
  · exact absurd h nofun
  next hlimit =>
  obtain ⟨id, -, h⟩ := Option.bind_eq_some_iff.mp h
  obtain ⟨currency, -, h⟩ := Option.bind_eq_some_iff.mp h
  obtain ⟨id', -, h⟩ := Option.bind_eq_some_iff.mp h
  obtain ⟨currency', -, h⟩ := Option.bind_eq_some_iff.mp h
  rw [← Except.ok.inj (Option.some.inj h)]
  exact ⟨fun heq => hsome (List.isEmpty_iff.mpr heq), not_le.mp hlimit, rfl⟩

/-- Issued within the skew, for at most the maximum. -/
theorem within_lifetime {issued expires now : Int}
    (hissued : issued ≤ now + CLOCK_SKEW_LEEWAY_SECONDS * SECOND) (hlong : expires - issued ≤ 366 * DAY) :
    expires ≤ now + LIFETIME := by
  unfold LIFETIME
  generalize CLOCK_SKEW_LEEWAY_SECONDS * SECOND = skew at hissued ⊢
  omega

theorem checkV1Delegation_terms {parent : ParentAuthority} {agent_pub : String} {d signature : Json}
    (hterms : w.db.InTerms (stamp T w.db w.clock) []) :
    (checkV1Delegation H parent agent_pub d signature).Wp (World.exec i)
      (KeepsTerms (stamp T w.db w.clock)) calls w := by
  unfold checkV1Delegation
  split
  · exact hterms
  · exact hterms
  refine wp_now ?_
  split
  · exact hterms
  · exact hterms
  next issued expires _ =>
  split
  · exact hterms
  next hfuture =>
  split
  · exact hterms
  split
  · exact hterms
  next hlong =>
  split
  · split
    · exact hterms
    refine wp_query ?_
    split
    · exact hterms
    split
    · exact hterms
    · exact hterms
    next v hv =>
    -- issued no later than the skew allows, and for no longer than the maximum
    obtain ⟨hcaps, hlimit, hexpires⟩ := readV1_ok hv
    refine enrol_v1_terms hterms hcaps hlimit ?_
    rw [hexpires]
    exact within_lifetime (not_lt.mp hfuture) (not_lt.mp hlong)
  · exact hterms

theorem v1_register_agent_terms {envelope : Json} (hterms : w.db.InTerms (stamp T w.db w.clock) []) :
    (v1_register_agent H envelope).Wp (World.exec i) (KeepsTerms (stamp T w.db w.clock)) calls w := by
  refine wp_now ?_
  split
  · exact hterms
  · exact hterms
  split
  · dsimp only
    split
    · exact hterms
    split
    · exact hterms
    split
    · exact hterms
    refine wp_query ?_
    split
    · exact hterms
    · exact checkV1Delegation_terms hterms
  · exact hterms

theorem register_agent_terms {req : AgentRegistrationRequest}
    (hterms : w.db.InTerms (stamp T w.db w.clock) []) :
    (register_agent H req).Wp (World.exec i) (KeepsTerms (stamp T w.db w.clock)) calls w := by
  refine wp_query ?_
  split
  · exact hterms
  split
  · exact hterms
  split
  · exact hterms
  · exact hterms
  refine wp_now ?_
  split
  · next expires issued _ _ =>
    split
    · exact hterms
    dsimp only
    split
    · exact hterms
    refine wp_query ?_
    split
    · exact hterms
    refine wp_fresh (wp_fresh (wp_commit (fun _ _ => inTerms_stable.rollback i hterms) fun d₂ h => ?_))
    -- a legacy agent: it has no terms to keep, but its credential must name it
    obtain ⟨d₁, h₁, hrest⟩ := applyAll_cons h
    obtain ⟨d₂', h₂, hrest⟩ := applyAll_cons hrest
    obtain rfl := Except.ok.inj hrest
    obtain ⟨-, hrecorded⟩ := @stamp_new T w.db d₁ w.clock _ h₁
    have hterms₁ := inTerms_other (by simp [Write.Redelegates]) h₁ hterms
    obtain ⟨hterms₂, hmem⟩ := inTerms_insertAgent h₂ hterms₁ hrecorded fun hv1 => absurd hv1 nofun
    refine Prog.wp_bind (wp_fresh (wp_now (wp_now ?_)))
    rw [Prog.pure_eq, Prog.wp_ret]
    refine wp_commit (fun _ _ => inTerms_stable.rollback i hterms₂) fun d₃ h => ?_
    obtain ⟨d₃', h₃, hrest⟩ := applyAll_cons h
    obtain rfl := Except.ok.inj hrest
    have hterms₃ := inTerms_insertCredential h₃ hterms₂ hmem rfl fun hv1 => absurd hv1 nofun
    refine Prog.wp_bind (wp_record_audit (wp_record_audit ?_))
    rw [Prog.pure_eq, Prog.wp_ret]
    refine inTerms_commit hterms₃ (fun _ _ _ h => h) (fun _ _ h => h) ?_
    exact fun db' hdb => inTerms_logs (by simp [Write.Logs]) hterms₃ hdb
  · exact hterms

/-- What a rotation takes from a document in the terms is in the terms. -/
theorem rotationOf_inTerms {a : Agent} {d : Json} {pem : String} {now issued expires : Instant}
    {r : Rotation} (h : rotationOf a d pem now expires = some r) (hdoc : RotationInTerms H d w.clock)
    (htimes : rotationTimes H d = .ok (issued, expires))
    (hcaps : ∃ xs, a.granted_capabilities = .list xs ∧ xs ≠ []) (hlimit : 0 < a.payment_limit_minor_units) :
    (∃ xs, r.granted_capabilities = .list xs ∧ xs ≠ []) ∧ 0 < r.payment_limit_minor_units ∧
      r.valid_until ≤ w.clock + LIFETIME := by
  obtain ⟨id, -, h⟩ := Option.bind_eq_some_iff.mp h
  obtain ⟨capabilities, hcapabilities, h⟩ := Option.bind_eq_some_iff.mp h
  obtain ⟨limit, hset, h⟩ := Option.bind_eq_some_iff.mp h
  obtain ⟨currency, -, h⟩ := Option.bind_eq_some_iff.mp h
  obtain ⟨_, -, h⟩ := Option.bind_eq_some_iff.mp h
  obtain ⟨id', -, h⟩ := Option.bind_eq_some_iff.mp h
  obtain ⟨n, hn, h⟩ := Option.bind_eq_some_iff.mp h
  obtain ⟨currency', -, h⟩ := Option.bind_eq_some_iff.mp h
  rw [← Option.some.inj h]
  cases d with
  -- a field the document leaves out keeps the agent's own value
  | dict kvs =>
    have hcapabilities : (kvs.lookup "granted_capabilities").getD a.granted_capabilities = capabilities :=
      Option.some.inj hcapabilities
    have hset : (kvs.lookup "payment_limit_minor_units").getD (.int a.payment_limit_minor_units) = limit :=
      Option.some.inj hset
    refine ⟨?_, ?_, hdoc.lifetime issued expires htimes⟩
    · show ∃ xs, capabilities = .list xs ∧ xs ≠ []
      rw [← hcapabilities]
      cases hlookup : kvs.lookup "granted_capabilities" with
      | none => exact hcaps
      | some v => exact hdoc.capabilities kvs v rfl hlookup
    · show 0 < n
      rw [← hset] at hn
      cases hlookup : kvs.lookup "payment_limit_minor_units" with
      | none =>
        rw [hlookup] at hn
        rw [← Option.some.inj (show some a.payment_limit_minor_units = some n from hn)]
        exact hlimit
      | some v =>
        rw [hlookup] at hn
        exact hdoc.limit kvs v n rfl hlookup hn
  | _ => exact absurd hcapabilities nofun

theorem apply_rotation_terms {a : Agent} {parent : ParentAuthority} {issued : Instant} {r : Rotation}
    (hterms : w.db.InTerms (stamp T w.db w.clock) []) (ha : a ∈ w.db.agents)
    (hr : a.protocol_version = some "1.0" → (∃ xs, r.granted_capabilities = .list xs ∧ xs ≠ []) ∧
      0 < r.payment_limit_minor_units ∧ r.valid_until ≤ w.clock + LIFETIME) :
    (apply_rotation H a parent issued r).Wp (World.exec i) (KeepsTerms (stamp T w.db w.clock)) calls w := by
  refine Prog.wp_bind (wp_fresh (wp_now (wp_now ?_)))
  rw [Prog.pure_eq, Prog.wp_ret]
  refine wp_query (wp_record_audit (inTerms_commit hterms (fun _ _ _ h => h) (fun _ _ h => h) fun db' hdb => ?_))
  rw [List.append_assoc, List.append_assoc, List.append_assoc] at hdb
  exact inTerms_rotation hterms (by simp [Write.Logs]) ha rfl rfl (min_le_right _ _) hr hdb

/-- The document of a rotation is in the terms, where it reaches a protocol 1.0 agent and the
agent's parent has signed it. -/
def Request.RotatesInTerms (H : Host) (w : World) : Request → Prop
  | .rotate_agent_key id req _ => ∀ a ∈ w.db.agents, a.agent_id = id → a.protocol_version = some "1.0" →
      ∀ parent, parent_for w.db a = some parent →
        H.verify_signature parent.public_key_pem (H.canonical_json req.delegation)
          req.delegation_signature_b64 = some true →
        RotationInTerms H req.delegation w.clock
  | _ => True

theorem rotate_agent_key_terms {id key : String} {req : RotateKeyRequest}
    (hterms : w.db.InTerms (stamp T w.db w.clock) [])
    (hreq : (Request.rotate_agent_key id req key).RotatesInTerms H w) :
    (rotate_agent_key H id req key).Wp (World.exec i) (KeepsTerms (stamp T w.db w.clock)) calls w := by
  refine wp_query ?_
  split
  · exact hterms
  next a hfound =>
  obtain ⟨hfound, -⟩ := Option.filter_eq_some_iff.mp hfound
  have ha := List.mem_of_find?_eq_some hfound
  have hid : a.agent_id = id := by simpa using List.find?_some hfound
  refine wp_query ?_
  split
  · exact hterms
  next parent hparent =>
  obtain ⟨hparent, -⟩ := Option.filter_eq_some_iff.mp hparent
  refine wp_admin (fun _ _ => hterms) ?_
  dsimp only
  split
  · exact hterms
  split
  · exact hterms
  · exact hterms
  next hsigned =>
  refine wp_now ?_
  split
  · exact hterms
  next issued expires htimes =>
  split
  · exact hterms
  split
  · exact hterms
  split
  · exact hterms
  split
  · exact hterms
  refine wp_query ?_
  split
  · exact hterms
  split
  · exact hterms
  next r hr =>
  refine apply_rotation_terms hterms ha fun hv1 => ?_
  obtain ⟨hcaps, hlimit, -⟩ := hterms.agents a ha hv1
  exact rotationOf_inTerms hr (hreq a ha hid hv1 parent hparent hsigned) htimes hcaps hlimit

/-- The requests that may set what the terms are about. -/
def Request.redelegates : Request → Bool
  | .register_agent _ | .v1_register_agent _ | .rotate_agent_key _ _ _ => true
  | _ => false

theorem settles_other {x : Write} (h : x.Settles) : ¬x.Redelegates := by
  cases h <;> simp [Write.Redelegates]

theorem Request.Allows.other {r : Request} {x : Write} (h : r.Allows x) (hr : r.redelegates = false) :
    ¬x.Redelegates := by
  intro hset
  rcases h with hlogs | hmay
  · rcases hset with ⟨a, rfl⟩ | ⟨id, r, rfl⟩ | ⟨c, rfl⟩ <;> exact absurd hlogs (by simp [Write.Logs])
  · cases r with
    | register_agent req => cases hr
    | v1_register_agent envelope => cases hr
    | rotate_agent_key id req key => cases hr
    | consume ctx id token => exact settles_other hmay hset
    | revoke_authorization ctx id token => exact settles_other hmay hset
    | webhook raw signature => exact settles_other hmay hset
    | refund ctx id req => exact settles_other hmay hset
    | reconcile ctx id token => exact settles_other hmay hset
    | batch n => exact settles_other hmay hset
    | _ =>
      rcases hset with ⟨a, rfl⟩ | ⟨id, r, rfl⟩ | ⟨c, rfl⟩ <;>
        exact absurd hmay (by simp [Request.mayWrite, Write.Mints])

/-- **One request keeps the terms.** -/
theorem serve_terms {r : Request} {answers : List Answer} (hterms : w.db.InTerms T [])
    (hr : r.RotatesInTerms H w) :
    (Server.serve H r answers w i).store.db.InTerms (stamp T w.db w.clock) [] := by
  have hnow : w.db.InTerms (stamp T w.db w.clock) [] := hterms.congr fun id hid => if_pos hid
  have hends : ∀ {p : Handler Reply}, p.Wp (World.exec i) (KeepsTerms (stamp T w.db w.clock)) [] w →
      p.Wp (World.exec i) (fun w' _ _ => (w'.rollback i).db.InTerms (stamp T w.db w.clock) []) [] w :=
    fun h => Prog.wp_mono (fun _ _ _ h => inTerms_stable.rollback i h) h
  cases hset : r.redelegates with
  | false =>
    have hstable : Stable r.Allows fun db => db.InTerms (stamp T w.db w.clock) [] :=
      ⟨fun db db' x hx => inTerms_stable.write db db' x (hx.other hset), inTerms_stable.use⟩
    exact hstable.serve answers i hnow
  | true =>
    refine Server.serve_spec (Q := fun w' _ _ => w'.db.InTerms (stamp T w.db w.clock) []) answers ?_
    cases r with
    | register_agent req => exact hends (register_agent_terms hnow)
    | v1_register_agent envelope => exact hends (v1_register_agent_terms hnow)
    | rotate_agent_key id req key => exact hends (rotate_agent_key_terms hnow hr)
    | _ => exact absurd hset nofun

end

/-! ## Every run -/

/-- A rotation among the operations stays in the terms. -/
def Operation.InTerms (H : Host) (p : Platform) : Operation → Prop
  | .serve r _ => r.RotatesInTerms H p.world
  | _ => True

namespace Platform

/-- The instant a delegation was accepted: the clock of the operation that put it on record. -/
def acceptedAt (H : Host) (decode_credential_jwt : Instant → String → Option (String × String)) :
    Platform → List Operation → String → Option Instant
  | _, [], _ => none
  | p, op :: ops, id =>
    if (step H decode_credential_jwt p op).world.db.Records id ∧ ¬p.world.db.Records id then
      some p.world.clock
    else acceptedAt H decode_credential_jwt (step H decode_credential_jwt p op) ops id

variable {H : Host} {decode_credential_jwt : Instant → String → Option (String × String)} {p : Platform}
  {T : String → Option Instant}

theorem step_records {id : String} (hid : p.world.db.Records id) (op : Operation) :
    (step H decode_credential_jwt p op).world.db.Records id := by
  cases op with
  | serve r answers =>
    have hstable : Stable r.Allows fun db => db.Records id :=
      ⟨fun _ _ _ _ h hid => records_apply h hid, fun _ _ _ hid => hid⟩
    exact hstable.serve answers 0 hid
  | _ =>
    obtain ⟨r, hr, heq⟩ := hid
    exact ⟨r, by rw [(step_steady p (by simp)).aside.delegations]; exact hr, heq⟩

/-- What the added routes leave alone. -/
theorem Steady.inTerms {p' : Platform} (hs : Steady p p') (h : p.world.db.InTerms T []) :
    p'.world.db.InTerms T [] := by
  refine ⟨hs.aside.keys h.keys, fun a ha hv1 => ?_, fun a ha => ?_, fun c hc => ?_⟩
  · rw [hs.aside.agents] at ha
    rw [hs.aside.credentials]
    exact h.agents a ha hv1
  · rw [hs.aside.agents] at ha
    obtain ⟨r, hr, heq⟩ := h.known a ha
    exact ⟨r, by rw [hs.aside.delegations]; exact hr, heq⟩
  · rw [hs.aside.credentials] at hc
    obtain ⟨a, ha, hid⟩ := h.issued c hc
    exact ⟨a, by rw [hs.aside.agents]; exact ha, hid⟩

theorem step_terms (h : p.world.db.InTerms T []) {op : Operation} (hop : op.InTerms H p) :
    (step H decode_credential_jwt p op).world.db.InTerms (stamp T p.world.db p.world.clock) [] := by
  have hnow : p.world.db.InTerms (stamp T p.world.db p.world.clock) [] := h.congr fun id hid => if_pos hid
  cases op with
  | serve r answers => exact serve_terms h hop
  | _ => exact Steady.inTerms (step_steady p (by simp)) hnow

/-- A run keeps the terms, with the instants at which its operations accepted them. -/
theorem run_terms : ∀ {ops : List Operation} {p : Platform} {T : String → Option Instant},
    p.world.db.InTerms T [] → (∀ pre op post, ops = pre ++ op :: post →
      op.InTerms H (run H decode_credential_jwt p pre)) →
    (run H decode_credential_jwt p ops).world.db.InTerms (fun id =>
      if p.world.db.Records id then T id else acceptedAt H decode_credential_jwt p ops id) [] := by
  intro ops
  induction ops with
  | nil => exact fun {p T} h _ => h.congr fun id hid => if_pos hid
  | cons op ops ih =>
    intro p T h hops
    have hfirst : op.InTerms H p := hops [] op ops rfl
    have hnext : (step H decode_credential_jwt p op).world.db.InTerms
        (stamp T p.world.db p.world.clock) [] := step_terms h hfirst
    have hrest := ih hnext fun pre op' post heq => hops (op :: pre) op' post (by rw [heq, List.cons_append])
    refine hrest.congr fun id _ => ?_
    -- an id goes on record once: before the first operation, with it, or later
    have hunfold : acceptedAt H decode_credential_jwt p (op :: ops) id =
        if (step H decode_credential_jwt p op).world.db.Records id ∧ ¬p.world.db.Records id then
          some p.world.clock
        else acceptedAt H decode_credential_jwt (step H decode_credential_jwt p op) ops id := rfl
    rw [hunfold]
    unfold stamp
    by_cases hold : p.world.db.Records id
    · rw [if_pos hold, if_pos (step_records hold op), if_pos hold]
    · by_cases hnew : (step H decode_credential_jwt p op).world.db.Records id
      · rw [if_neg hold, if_pos ⟨hnew, hold⟩, if_pos hnew, if_neg hold]
      · rw [if_neg hold, if_neg (fun h => hnew h.1), if_neg hnew]

end Platform

namespace Sample

/-- A protocol 1.0 registration under the parent of `registration`. -/
def v1Enrolment : Json :=
  .dict [("protocol", .str "paari"), ("version", .str "1.0"), ("type", .str "register"),
    ("message_id", .str "m"), ("sender", .str "key"), ("receiver", .str "paari"),
    ("issued_at", .int 0), ("expires_at", .int 100), ("signature", .str "signature"),
    ("payload", .dict [("public_key_pem", .str "key"), ("delegation_signature_b64", .str "signature"),
      ("delegation", .dict [("delegation_id", .str "d"), ("parent_id", .str "uu"),
        ("agent_public_key_fingerprint", .str "key"),
        ("granted_capabilities", .list [.str "make_payment"]),
        ("payment_limit_minor_units", .int 1000), ("currency", .str "INR"),
        ("issued_at", .int 0), ("expires_at", .int 1000)])])]

/-- A rotation of the agent enrolled so, with these members next to what it must have. -/
def rotation (expires : Int) (more : List (String × Json)) : Operation :=
  .serve (.rotate_agent_key "uuuu" ⟨"new-key", .dict ([("delegation_id", .str "fresh"),
    ("parent_id", .str "uu"), ("agent_public_key_fingerprint", .str "new-key"),
    ("issued_at", .int 0), ("expires_at", .int expires)] ++ more), "signature"⟩ "") []

/-- The registrations of a parent and of its agent, and a rotation. -/
def rotated (op : Operation) : List Operation :=
  registration ++ [.serve (.v1_register_agent v1Enrolment) [], op]

end Sample

end Paari
