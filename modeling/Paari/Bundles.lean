import Paari.Evidence

/-!
# When a proof bundle exists

`collect_proof_bundle` gathers the rows of a payment and renders them in one go. Most of
them may be missing, and then their artifact is null. The rows it cannot do without are
those of the agent's registration, which are always there, and one that is not: the
authorization, which `causal_provenance` reads unasked.
-/

namespace Paari

/-- What a registration leaves, and a rotation replaces, of an agent: the row with its
parent, the delegation it names, a credential. -/
structure Registered (db : DB) (agent_id : String) (agent : Agent) : Prop where
  found : (db.agents.find? fun a => a.agent_id == agent_id) = some agent
  parent : ∃ p ∈ db.parents, p.id = agent.parent_pk
  delegation : ∃ d ∈ db.delegations, d.delegation_id = agent.delegation_id
  credential : ∃ c ∈ db.credentials, c.agent_pk = agent.id

/-- The stored mandate of an intent. -/
def storedMandate (db : DB) (intent : PaymentIntent) : Option UserPaymentMandate :=
  if present intent.mandate_id then
    db.mandates.find? fun m => some m.mandate_id == intent.mandate_id
  else none

/-- The condition: the intent has its authorization, the agent was not revoked twice over by
its parent, its capabilities are words, and the key of its mandate loads. -/
structure Bundled (H : Host) (db : DB) (intent : PaymentIntent) (agent : Agent) : Prop where
  authorized : ∃ u, (db.authorizations.filter fun u => u.intent_id == intent.intent_id) = [u]
  revoked : (db.revocations.filter fun r => r.agent_id == agent.agent_id).length ≤ 1
  capabilities : ∃ cs, cardCapabilities agent = some cs
  loads : ∀ m, storedMandate db intent = some m → present m.signature_b64 = true →
    ∃ r, verify_mandate_signature H m = some r

section
variable {db : DB}

theorem find_of_exists {α : Type} {p : α → Bool} {xs : List α} (h : ∃ x ∈ xs, p x = true) :
    ∃ x, xs.find? p = some x := by
  obtain ⟨x, hx, hp⟩ := h
  exact Option.isSome_iff_exists.mp (List.find?_isSome.mpr ⟨x, hx, hp⟩)

/-- The later issued of two credentials. -/
def laterCredential (best : Option Credential) (c : Credential) : Option Credential :=
  match best with
  | none => some c
  | some b => if b.issued_at < c.issued_at then some c else some b

/-- An agent with a credential has a last one. -/
theorem lastCredential_some {pk : Nat} (h : ∃ c ∈ db.credentials, c.agent_pk = pk) :
    ∃ c, lastCredential db pk = some c := by
  have hkept : ∀ (cs : List Credential) (best : Option Credential), best.isSome ∨ cs ≠ [] →
      (cs.foldl laterCredential best).isSome = true := by
    intro cs
    induction cs with
    | nil => exact fun best h => h.elim id fun h => absurd rfl h
    | cons c cs ih =>
      refine fun best _ => ih _ (.inl ?_)
      cases best with
      | none => rfl
      | some b =>
        unfold laterCredential
        dsimp only
        split <;> rfl
  obtain ⟨c, hc, hpk⟩ := h
  refine Option.isSome_iff_exists.mp (hkept _ none (.inr fun hnil => ?_))
  have hmem : c ∈ db.credentials.filter fun c => c.agent_pk == pk :=
    List.mem_filter.mpr ⟨hc, beq_iff_eq.mpr hpk⟩
  rw [hnil] at hmem
  exact absurd hmem List.not_mem_nil

theorem oneOrNone_some {α : Type} {xs : List α} : (∃ r, oneOrNone xs = some r) ↔ xs.length ≤ 1 := by
  match xs with
  | [] => exact ⟨fun _ => Nat.zero_le 1, fun _ => ⟨none, rfl⟩⟩
  | [x] => exact ⟨fun _ => Nat.le_refl 1, fun _ => ⟨some x, rfl⟩⟩
  | _ :: _ :: _ => exact ⟨fun ⟨_, h⟩ => absurd h nofun, fun h => absurd h (by simp)⟩

theorem oneOrNone_one {α : Type} {xs : List α} {x : α} : oneOrNone xs = some (some x) ↔ xs = [x] := by
  match xs with
  | [] => exact ⟨nofun, nofun⟩
  | [y] => exact ⟨fun h => by rw [Option.some.inj (Option.some.inj h)], fun h => by rw [h]; rfl⟩
  | _ :: _ :: _ => exact ⟨nofun, fun h => absurd (congrArg List.length h) (by simp)⟩

/-- The recomputation raises only on a key that does not load. -/
theorem recheckSignature_ok {H : Host} {mandate : Option UserPaymentMandate} :
    (∃ s, recheckSignature H mandate = .ok s) ↔ ∀ m, mandate = some m →
      present m.signature_b64 = true → ∃ r, verify_mandate_signature H m = some r := by
  unfold recheckSignature
  cases mandate with
  | none => exact ⟨fun _ m h => absurd h nofun, fun _ => ⟨none, rfl⟩⟩
  | some m =>
    cases hsigned : present m.signature_b64 with
    | false =>
      rw [Option.filter_some, hsigned]
      refine ⟨fun _ m' hm' h => ?_, fun _ => ⟨none, rfl⟩⟩
      rw [← Option.some.inj hm', hsigned] at h
      exact absurd h Bool.false_ne_true
    | true =>
      rw [Option.filter_some, hsigned]
      constructor
      · intro hverified m' hm' _
        obtain ⟨s, hs⟩ := hverified
        obtain rfl := Option.some.inj hm'
        cases hverify : verify_mandate_signature H m with
        | none =>
          rw [if_pos rfl] at hs
          dsimp only at hs
          rw [hverify] at hs
          exact absurd hs nofun
        | some r => exact ⟨r, rfl⟩
      · intro h
        obtain ⟨r, hr⟩ := h m rfl hsigned
        refine ⟨some r, ?_⟩
        rw [if_pos rfl]
        dsimp only
        rw [hr]

theorem except_bind_ok {ε α β : Type} {x : Except ε α} {f : α → Except ε β} {b : β}
    (h : (x >>= f) = .ok b) : ∃ a, x = .ok a ∧ f a = .ok b := by
  cases x with
  | ok a => exact ⟨a, rfl, h⟩
  | error e => exact absurd h nofun

end

namespace Sample

/-- The deployment with the delegation of its agent on record. -/
def onRecord : World :=
  let w := capable "make_payment"
  { w with db := { w.db with
      delegations := [⟨"delegation", "default", 1, "agent-key", jsonStrings ["make_payment"], 1000, "INR", 0,
        1000000000000000⟩] } }

/-- After a payment of the given amount was proposed. -/
def bundled (amount : Int) : World :=
  (Server.serve (host false []) (.submit_intent ctx { proposal with amount_minor_units := amount }) []
    onRecord).store

end Sample

end Paari
