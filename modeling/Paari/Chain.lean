import Paari.Server

/-!
# The audit chain, verified

`verify_chain` recomputes every link of a trace: the first event must name `GENESIS`,
every later one the hash before it, and each stored hash must be the digest of what its
version covers. Version 1 covers the previous hash and the detail, every other version
the whole event. Because the digest of the last event covers the hash before it, the
last hash fixes the whole chain: `chain_tamper_evident`.
-/

namespace Paari

open JsonText

variable {H : Host}

/-! ## The verifier -/

/-- `getattr(event, "hash_version", 1) or 1` is 1. -/
def AuditEvent.isV1 (e : AuditEvent) : Bool := e.hash_version == 0 || e.hash_version == 1

/-- The text `_hash_event_v1` or `_hash_event_v2` takes the digest of. -/
def AuditEvent.preimage (H : Host) (e : AuditEvent) : String :=
  if e.isV1 then e.prev_hash ++ H.canonical_json (.dict e.detail)
  else
    H.canonical_json (.dict [
      ("prev_hash", .str e.prev_hash), ("kind", .str e.kind), ("agent_id", .str e.agent_id),
      ("parent_id", jsonOpt e.parent_id), ("org_id", .str e.org_id),
      ("transaction_id", .str e.transaction_id), ("created_at", .str (H.isoformat e.created_at)),
      ("detail", .dict e.detail)])

/-- The loop of `verify_chain`. -/
def verify_events (H : Host) : String → List AuditEvent → Bool
  | _, [] => true
  | prev_hash, e :: es =>
    e.prev_hash == prev_hash && e.event_hash == H.sha256_hex (e.preimage H) &&
      verify_events H e.event_hash es

/-- The events of a trace, oldest first. -/
def DB.trace (db : DB) (transaction_id : String) : List AuditEvent :=
  db.audits.filter fun e => e.transaction_id == transaction_id

/-- `verify_chain` -/
def verify_chain (H : Host) (db : DB) (transaction_id : String) : Bool :=
  verify_events H "GENESIS" (db.trace transaction_id)

/-- The hash an event appended to these links to. -/
def lastHash (prev_hash : String) (es : List AuditEvent) : String :=
  (es.getLast?.map AuditEvent.event_hash).getD prev_hash

theorem verify_append (es : List AuditEvent) (e : AuditEvent) : ∀ prev_hash,
    verify_events H prev_hash (es ++ [e]) = true ↔
      verify_events H prev_hash es = true ∧ e.prev_hash = lastHash prev_hash es ∧
        e.event_hash = H.sha256_hex (e.preimage H) := by
  induction es with
  | nil => intro p; simp [verify_events, lastHash]
  | cons x xs ih =>
    intro p
    have hlast : lastHash p (x :: xs) = lastHash x.event_hash xs := by
      unfold lastHash
      cases xs with
      | nil => rfl
      | cons y ys => rw [List.getLast?_cons_cons]; simp [List.getLast?_cons]
    rw [List.cons_append, verify_events, Bool.and_eq_true, ih, hlast, ← and_assoc, ← Bool.and_eq_true]
    rfl

/-! ## What is assumed of the digest -/

/-- A SHA-256 hex digest: 64 lower-case hexadecimal digits. -/
def HexDigest (s : String) : Prop :=
  s.toList.length = 64 ∧ ∀ c ∈ s.toList, c ∈ "0123456789abcdef".toList

/-- No two of the texts hashed for these events have the same digest. -/
def CollisionFree (H : Host) (es : List AuditEvent) : Prop :=
  ∀ e ∈ es, ∀ e' ∈ es, H.sha256_hex (e.preimage H) = H.sha256_hex (e'.preimage H) →
    e.preimage H = e'.preimage H

/-! ## What one digest covers -/

/-- The events agree in everything their hashes cover. -/
structure Agree (e e' : AuditEvent) : Prop where
  version : e.isV1 = e'.isV1
  prev_hash : e.prev_hash = e'.prev_hash
  detail : (Json.dict e.detail).Same (.dict e'.detail)
  rest : e.isV1 = false → e.kind = e'.kind ∧ e.agent_id = e'.agent_id ∧ e.parent_id = e'.parent_id ∧
    e.org_id = e'.org_id ∧ e.transaction_id = e'.transaction_id ∧ e.created_at = e'.created_at

/-- A value an event of a verified chain can name as the hash before it. -/
def Prior (s : String) : Prop := s = "GENESIS" ∨ HexDigest s

theorem Prior.plain {s : String} (h : Prior s) : s.toList ≠ [] ∧ '{' ∉ s.toList := by
  rcases h with rfl | ⟨hlength, hhex⟩
  · decide
  · refine ⟨fun hnil => ?_, fun hbrace => absurd (hhex _ hbrace) (by decide)⟩
    rw [hnil] at hlength
    exact absurd hlength (by decide)

theorem HexDigest.ne_genesis {s : String} (h : HexDigest s) : s ≠ "GENESIS" := by
  rintro rfl
  exact absurd h.1 (by decide)

/-- An object's text starts with its brace. -/
theorem canonical_json_dict (kvs : List (String × Json)) :
    ∃ t, (H.canonical_json (.dict kvs)).toList = '{' :: t := by
  unfold Host.canonical_json canonical_json
  rw [String.toList_ofList]
  exact ⟨_, rfl⟩

theorem jsonOpt_injective {a b : Option String} (h : (jsonOpt a).Same (jsonOpt b)) : a = b := by
  cases a with
  | none => cases b with
    | none => rfl
    | some t => exact absurd h (by simp [jsonOpt, Json.Same, Json.tree])
  | some s => cases b with
    | none => exact absurd h (by simp [jsonOpt, Json.Same, Json.tree])
    | some t => exact congrArg some (JsonText.Tree.str.inj h)

/-- Two events whose hashed texts are the same agree. -/
theorem preimage_agree {e e' : AuditEvent} (hrepr : FloatRepr H.float_repr)
    (hiso : Function.Injective H.isoformat) (hp : Prior e.prev_hash) (hp' : Prior e'.prev_hash)
    (h : e.preimage H = e'.preimage H) : Agree e e' := by
  obtain ⟨hne, hbrace⟩ := hp.plain
  obtain ⟨hne', hbrace'⟩ := hp'.plain
  unfold AuditEvent.preimage at h
  -- a text of version 1 starts with the hash before it, one of version 2 with a brace
  have hmixed : ∀ {s : String} {kvs kvs' : List (String × Json)}, s.toList ≠ [] → '{' ∉ s.toList →
      s ++ H.canonical_json (.dict kvs) ≠ H.canonical_json (.dict kvs') := by
    intro s kvs kvs' hs hb heq
    obtain ⟨c, t, hcons⟩ := List.exists_cons_of_ne_nil hs
    obtain ⟨u, hu⟩ := canonical_json_dict (H := H) kvs'
    have htext := congrArg String.toList heq
    rw [String.toList_append, hu, hcons, List.cons_append] at htext
    exact hb (hcons ▸ (List.cons.inj htext).1 ▸ List.mem_cons_self)
  split at h
  · next hv =>
    split at h
    · next hv' =>
      obtain ⟨t, ht⟩ := canonical_json_dict (H := H) e.detail
      obtain ⟨t', ht'⟩ := canonical_json_dict (H := H) e'.detail
      have htext := congrArg String.toList h
      rw [String.toList_append, String.toList_append, ht, ht'] at htext
      obtain ⟨hprev, hrest⟩ := split_at hbrace hbrace' htext
      refine ⟨hv.trans hv'.symm, String.toList_injective hprev, ?_, fun hno => ?_⟩
      · refine canonical_json_injective hrepr (String.toList_injective ?_)
        show (H.canonical_json _).toList = (H.canonical_json _).toList
        rw [ht, ht', hrest]
      · exact absurd (hv.symm.trans hno) (by decide)
    · exact absurd h (hmixed hne hbrace)
  · next hv =>
    split at h
    · exact absurd h.symm (hmixed hne' hbrace')
    · next hv' =>
      have hv : e.isV1 = false := by simpa using hv
      have hv' : e'.isV1 = false := by simpa using hv'
      have hfield := (canonical_json_injective hrepr h).lookup (by simp) (by simp)
      have hstr : ∀ {a b : String}, some (Json.str a).tree = some (Json.str b).tree → a = b :=
        fun hab => JsonText.Tree.str.inj (Option.some.inj hab)
      have hcreated : H.isoformat e.created_at = H.isoformat e'.created_at := hstr (hfield "created_at")
      exact ⟨hv.trans hv'.symm, hstr (hfield "prev_hash"), Option.some.inj (hfield "detail"),
        fun _ => ⟨hstr (hfield "kind"), hstr (hfield "agent_id"),
          jsonOpt_injective (Option.some.inj (hfield "parent_id")), hstr (hfield "org_id"),
          hstr (hfield "transaction_id"), hiso hcreated⟩⟩

/-! ## The chain -/

/-- The hash a verified chain would be continued with. -/
theorem prior_lastHash (hsha : ∀ s, HexDigest (H.sha256_hex s)) {es : List AuditEvent}
    (h : verify_events H "GENESIS" es = true) : Prior (lastHash "GENESIS" es) := by
  rcases List.eq_nil_or_concat' es with rfl | ⟨es, e, rfl⟩
  · exact .inl rfl
  · obtain ⟨-, -, hhash⟩ := (verify_append es e _).mp h
    right
    rw [lastHash, List.getLast?_concat, Option.map_some, Option.getD_some, hhash]
    exact hsha _

/-- Chains that would be continued with the same hash are both empty, or end in the same
hash. -/
theorem lastHash_eq (hsha : ∀ s, HexDigest (H.sha256_hex s)) {es es' : List AuditEvent}
    (h : verify_events H "GENESIS" es = true) (h' : verify_events H "GENESIS" es' = true)
    (heq : lastHash "GENESIS" es = lastHash "GENESIS" es') :
    es.getLast?.map AuditEvent.event_hash = es'.getLast?.map AuditEvent.event_hash := by
  have hdigest : ∀ {es : List AuditEvent} {e : AuditEvent}, verify_events H "GENESIS" (es ++ [e]) = true →
      lastHash "GENESIS" (es ++ [e]) ≠ "GENESIS" := by
    intro es e hv
    obtain ⟨-, -, hhash⟩ := (verify_append es e _).mp hv
    rw [lastHash, List.getLast?_concat, Option.map_some, Option.getD_some, hhash]
    exact (hsha _).ne_genesis
  rcases List.eq_nil_or_concat' es with rfl | ⟨es, e, rfl⟩
  · rcases List.eq_nil_or_concat' es' with rfl | ⟨es', e', rfl⟩
    · rfl
    · exact absurd heq.symm (hdigest h')
  · rcases List.eq_nil_or_concat' es' with rfl | ⟨es', e', rfl⟩
    · exact absurd heq (hdigest h)
    · simpa [lastHash] using heq

theorem verify_agree (hrepr : FloatRepr H.float_repr)
    (hiso : Function.Injective H.isoformat) (hsha : ∀ s, HexDigest (H.sha256_hex s)) :
    ∀ (es es' : List AuditEvent), CollisionFree H (es ++ es') →
      verify_events H "GENESIS" es = true → verify_events H "GENESIS" es' = true →
      es.getLast?.map AuditEvent.event_hash = es'.getLast?.map AuditEvent.event_hash →
      List.Forall₂ Agree es es' := by
  intro es
  -- backwards along the first chain: the last hash fixes the last event, and with it the
  -- hash before it
  induction es using List.reverseRecOn with
  | nil =>
    intro es' _ _ _ hlast
    rcases List.eq_nil_or_concat' es' with rfl | ⟨es', e', rfl⟩
    · exact .nil
    · exact absurd hlast (by simp)
  | append_singleton es e ih =>
    intro es' hfree hv hv' hlast
    rcases List.eq_nil_or_concat' es' with rfl | ⟨es', e', rfl⟩
    · exact absurd hlast (by simp)
    · obtain ⟨hes, hprev, hhash⟩ := (verify_append es e _).mp hv
      obtain ⟨hes', hprev', hhash'⟩ := (verify_append es' e' _).mp hv'
      have heq : e.event_hash = e'.event_hash := by simpa using hlast
      have hpre : e.preimage H = e'.preimage H :=
        hfree e (by simp) e' (by simp) (by rw [← hhash, ← hhash', heq])
      have hagree := preimage_agree hrepr hiso (hprev ▸ prior_lastHash hsha hes)
        (hprev' ▸ prior_lastHash hsha hes') hpre
      refine List.rel_append (ih es' ?_ hes hes' ?_) (.cons hagree .nil)
      · intro x hx y hy
        refine hfree x ?_ y ?_
        · rcases List.mem_append.mp hx with hx | hx <;> simp [hx]
        · rcases List.mem_append.mp hy with hy | hy <;> simp [hy]
      · refine lastHash_eq hsha hes hes' ?_
        rw [← hprev, ← hprev', hagree.prev_hash]

namespace Sample

/-- A printer of floats that spells out mantissa and exponent. -/
def float_repr : PyFloat → String
  | .finite m e => String.ofList (decimal m ++ 'e' :: decimal e)
  | .inf false => "Infinity"
  | .inf true => "-Infinity"
  | .nan => "NaN"

theorem decimal_no_letter (i : Int) {c : Char} (hdigit : c.isDigit = false) (hminus : c ≠ '-') :
    c ∉ decimal i := by
  intro hc
  rcases decimal_chars i c hc with hd | hm
  · rw [hd] at hdigit
    exact absurd hdigit (by decide)
  · exact hminus hm

theorem float_repr_ok : FloatRepr float_repr where
  injective x y h := by
    generalize x.norm = x at h ⊢
    generalize y.norm = y at h ⊢
    have hfinite : ∀ m e s, 'e' ∉ s.toList → float_repr (.finite m e) ≠ s := by
      rintro m e s hs rfl
      exact hs (by simp [float_repr])
    cases x with
    | finite m e =>
      cases y with
      | finite m' e' =>
        obtain ⟨hm, he⟩ := split_at (decimal_no_letter m (by decide) (by decide))
          (decimal_no_letter m' (by decide) (by decide)) (String.ofList_injective h)
        rw [decimal_injective hm, decimal_injective he]
      | inf b => cases b <;> exact absurd h (hfinite m e _ (by decide))
      | nan => exact absurd h (hfinite m e _ (by decide))
    | inf b =>
      cases y with
      | finite m e => cases b <;> exact absurd h.symm (hfinite m e _ (by decide))
      | inf b' => cases b <;> cases b' <;> simp [float_repr] at h ⊢
      | nan => cases b <;> simp [float_repr] at h
    | nan =>
      cases y with
      | finite m e => exact absurd h.symm (hfinite m e _ (by decide))
      | inf b => cases b <;> simp [float_repr] at h
      | nan => rfl
  chars x c hc := by
    cases x with
    | finite m e =>
      simp only [float_repr, String.toList_ofList, List.mem_append, List.mem_cons] at hc
      rcases hc with hc | rfl | hc
      · exact (decimal_chars m c hc).imp id (by rintro rfl; decide)
      · decide
      · exact (decimal_chars e c hc).imp id (by rintro rfl; decide)
    | inf b =>
      have hall : (float_repr (.inf b)).toList.all fun c =>
          c ∈ ['-', '+', '.', 'e', 'N', 'a', 'I', 'n', 'f', 'i', 't', 'y'] := by
        cases b <;> decide
      exact .inr (of_decide_eq_true (List.all_eq_true.mp hall c hc))
    | nan =>
      have hall : (float_repr .nan).toList.all fun c =>
          c ∈ ['-', '+', '.', 'e', 'N', 'a', 'I', 'n', 'f', 'i', 't', 'y'] := by decide
      exact .inr (of_decide_eq_true (List.all_eq_true.mp hall c hc))
  head x c t h := by
    cases x with
    | finite m e =>
      obtain ⟨d, u, hm⟩ := List.exists_cons_of_ne_nil (decimal_ne_nil m)
      simp only [float_repr, String.toList_ofList, hm, List.cons_append, List.cons.injEq] at h
      obtain rfl := h.1
      exact (decimal_chars m d (hm ▸ List.mem_cons_self)).imp id (by rintro rfl; decide)
    | inf b => cases b <;> exact .inr ((List.cons.inj h).1 ▸ by decide)
    | nan => exact .inr ((List.cons.inj h).1 ▸ by decide)
  not_integer x := by
    cases x with
    | finite m e => exact ⟨'e', by simp [float_repr], by decide, by decide⟩
    | inf b => cases b <;> exact ⟨'I', by decide, by decide, by decide⟩
    | nan => exact ⟨'N', by decide, by decide, by decide⟩

/-- The digest of the one event below. -/
def digest : String := "80b866f74c296d3709c19acb425b6003ad14c84e569491f027733ccf78f6306e"

theorem digest_hex : HexDigest digest := by
  have hall : digest.toList.all fun c => c ∈ "0123456789abcdef".toList := by decide
  exact ⟨by decide, fun c hc => of_decide_eq_true (List.all_eq_true.mp hall c hc)⟩

/-- A host that prints JSON, and knows the digest of the one event below. -/
def chainHost : Host :=
  { host false [] with
    float_repr := float_repr
    isoformat := fun t =>
      if t = 0 then "1970-01-01T00:00:00+00:00" else String.ofList (decimal t)
    sha256_hex := fun _ => digest }

theorem isoformat_injective : Function.Injective chainHost.isoformat := by
  have hne : ∀ t : Instant, String.ofList (decimal t) ≠ "1970-01-01T00:00:00+00:00" := by
    intro t heq
    have hT : 'T' ∈ decimal t := by
      rw [← String.toList_ofList (l := decimal t), heq]
      decide
    exact decimal_no_letter t (by decide) (by decide) hT
  intro s t h
  simp only [chainHost] at h
  split at h
  · split at h
    · next hs ht => exact hs.trans ht.symm
    · exact absurd h.symm (hne t)
  · split at h
    · exact absurd h (hne s)
    · exact decimal_injective (String.ofList_injective h)

/-- The first event of a trace. -/
def firstEvent : AuditEvent where
  org_id := "default"
  transaction_id := "trace"
  agent_id := "agent"
  parent_id := none
  kind := "intent_decided"
  detail := [("amount", .int 100)]
  prev_hash := "GENESIS"
  event_hash := digest
  created_at := 0
  hash_version := 2

end Sample

end Paari
