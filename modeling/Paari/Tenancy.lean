import Paari.Server

/-!
# Which environment variables serve an organization

Key, secret, webhook secret and agentic adapter of an organization are read from four
environment variables: the plain names for the default organization, else the names with
the organization's tag behind them. The tag is the id without its non-word characters, in
upper case, so it is not the id; and the Razorpay agentic adapter reads the plain names,
whichever organization selected it. `tenants_disjoint_iff` says exactly which pairs of
organizations are served from different variables.
-/

namespace Paari

/-! ## The adapter's own configuration -/

namespace RazorpayAgentic

structure Config where
  key_id : String
  key_secret : String
  webhook_secret : String
  base : String
  authorize_path : String
  capture_path : String
  token_list_path : String
  payment_path : String

/-- `_get_config` of the Razorpay agentic adapter. -/
def get_config (H : Host) : Except Exc Config :=
  let key_id := H.env "RAZORPAY_KEY_ID"
  let key_secret := H.env "RAZORPAY_KEY_SECRET"
  let confirmed := H.flag "RAZORPAY_AGENTIC_CAPABILITY_CONFIRMED"
  let authorize_path := H.strip (H.env "RAZORPAY_AGENTIC_AUTHORIZE_PATH")
  let payment_path := H.strip (H.env "RAZORPAY_AGENTIC_PAYMENT_PATH")
  if key_id = "" ∨ key_secret = "" then
    .error (.other "RAZORPAY_KEY_ID/RAZORPAY_KEY_SECRET must be configured")
  else if !confirmed || authorize_path == "" || payment_path == "" then
    .error (.other ("Razorpay agentic capability is not configured. Set " ++
      "RAZORPAY_AGENTIC_CAPABILITY_CONFIRMED=1 only after Razorpay has " ++
      "enabled/provided the documented server-to-server mandate/debit " ++
      "contract, and set the exact documented authorize and payment-read paths."))
  else
    .ok {
      key_id := key_id
      key_secret := key_secret
      webhook_secret := H.env "RAZORPAY_WEBHOOK_SECRET"
      base := RazorpayAdapter.api_base H
      authorize_path := authorize_path
      capture_path := H.strip (H.env "RAZORPAY_AGENTIC_CAPTURE_PATH")
      token_list_path := H.strip (H.env "RAZORPAY_AGENTIC_TOKEN_LIST_PATH")
      payment_path := payment_path }

end RazorpayAgentic

/-- The class an organization's agentic adapter is of. -/
inductive AgenticClass
  | not_configured
  | reference_autonomous
  | razorpay_agentic
  /-- A class from outside the repository, with the variables it takes credentials from. -/
  | foreign (credentials : List String)

namespace AgenticClass

/-- The variables an adapter of the class takes its credentials from. -/
def credentials : AgenticClass → List String
  | not_configured => []
  | reference_autonomous => []
  | razorpay_agentic => ["RAZORPAY_KEY_ID", "RAZORPAY_KEY_SECRET", "RAZORPAY_WEBHOOK_SECRET"]
  | foreign names => names

end AgenticClass

theorem razorpay_agentic_reads {H : Host} {cfg : RazorpayAgentic.Config}
    (h : RazorpayAgentic.get_config H = .ok cfg) :
    [cfg.key_id, cfg.key_secret, cfg.webhook_secret] =
      AgenticClass.razorpay_agentic.credentials.map fun name => H.env name := by
  simp only [RazorpayAgentic.get_config] at h
  split at h
  · exact absurd h (by simp)
  · split at h
    · exact absurd h (by simp)
    · rw [← Except.ok.inj h]
      rfl

section
variable (H : Host) (import_class : String → String → Option AgenticClass)

/-- The class `get_agentic_provider` makes an instance of; `none` where it raises. -/
def selected_class (org_id : String) : Option AgenticClass :=
  let spec := resolve_agentic_spec H org_id
  if spec = "" then some .not_configured
  else
    let (module_name, class_name) := partitionColon spec
    if module_name = "" ∨ class_name = "" then none else import_class module_name class_name

/-! ## The names -/

/-- The tag behind an organization's variables; the default organization has none. -/
def tag_of (org_id : String) : Option String :=
  let resolved := RazorpayAdapter.orStr org_id "default"
  if resolved = "default" then none else some (env_tag H resolved)

/-- A variable's name under a tag. -/
def tagged (name : String) : Option String → String
  | none => name
  | some tag => name ++ ("__" ++ tag)

def NAMES : List String :=
  ["RAZORPAY_KEY_ID", "RAZORPAY_KEY_SECRET", "RAZORPAY_WEBHOOK_SECRET", "PAARI_AGENTIC_PROVIDER"]

/-- The variables an organization is served from: its own four, and those its agentic
adapter takes credentials from. -/
def tenantVariables (org_id : String) : List String :=
  NAMES.map (fun name => tagged name (tag_of H org_id)) ++
    ((selected_class H import_class org_id).map AgenticClass.credentials).getD []

end

theorem orStr_left {a b : String} (h : a ≠ "") : RazorpayAdapter.orStr a b = a := if_neg h

/-- The adapter of an organization has the values of its own variables. -/
theorem provider_reads {H : Host} {db : DB} {org_id : String} {p : RazorpayAdapter}
    (h : get_provider_for_org H db org_id = .ok p) :
    p.key_id H = H.env (tagged "RAZORPAY_KEY_ID" (tag_of H org_id)) ∧
    RazorpayAdapter.orStr p.key_secret_override (H.env "RAZORPAY_KEY_SECRET") =
      H.env (tagged "RAZORPAY_KEY_SECRET" (tag_of H org_id)) ∧
    RazorpayAdapter.orStr p.webhook_secret_override (H.env "RAZORPAY_WEBHOOK_SECRET") =
      H.env (tagged "RAZORPAY_WEBHOOK_SECRET" (tag_of H org_id)) := by
  simp only [get_provider_for_org] at h
  unfold tag_of
  split at h
  · next hdefault =>
    rw [if_pos hdefault, ← Except.ok.inj h]
    exact ⟨rfl, rfl, rfl⟩
  · next hdefault =>
    rw [if_neg hdefault]
    split at h
    · exact absurd h (by simp)
    split at h
    · exact absurd h (by simp)
    next hkeys =>
    split at h
    · exact absurd h (by simp)
    next hwebhook =>
    rw [not_or] at hkeys
    rw [← Except.ok.inj h]
    exact ⟨orStr_left hkeys.1, orStr_left hkeys.2, orStr_left hwebhook⟩

theorem agentic_spec_reads (H : Host) (org_id : String) :
    resolve_agentic_spec H org_id =
      H.strip (H.env (tagged "PAARI_AGENTIC_PROVIDER" (tag_of H org_id))) := by
  unfold resolve_agentic_spec tag_of
  by_cases hdefault : RazorpayAdapter.orStr org_id "default" = "default"
  · simp [hdefault, tagged]
  · simp only [ne_eq, hdefault, not_false_iff, if_true, if_false]
    rfl

/-- A tagged name tells the tag. -/
theorem tagged_inj {name name' : String} (hn : name ∈ NAMES) (hn' : name' ∈ NAMES)
    {tag tag' : Option String} (h : tagged name tag = tagged name' tag') : tag = tag' := by
  have hchars := congrArg String.toList h
  simp only [NAMES, List.mem_cons, List.not_mem_nil, or_false] at hn hn'
  cases tag with
  | none =>
    cases tag' with
    | none => rfl
    | some t' =>
      rcases hn with rfl | rfl | rfl | rfl <;> rcases hn' with rfl | rfl | rfl | rfl <;>
        simp [tagged] at hchars
  | some t =>
    cases tag' with
    | none =>
      rcases hn with rfl | rfl | rfl | rfl <;> rcases hn' with rfl | rfl | rfl | rfl <;>
        simp [tagged] at hchars
    | some t' =>
      rcases hn with rfl | rfl | rfl | rfl <;> rcases hn' with rfl | rfl | rfl | rfl <;>
        simp [tagged] at hchars <;> exact congrArg some (String.toList_injective hchars)

section
variable {H : Host} {import_class : String → String → Option AgenticClass} {o₁ o₂ : String}

/-- Two organizations with one tag are one organization, or two others with tags alike. -/
theorem tag_of_eq (h₁ : o₁ ≠ "") (h₂ : o₂ ≠ "") (hne : o₁ ≠ o₂) :
    tag_of H o₁ = tag_of H o₂ ↔
      o₁ ≠ "default" ∧ o₂ ≠ "default" ∧ env_tag H o₁ = env_tag H o₂ := by
  unfold tag_of
  rw [orStr_left h₁, orStr_left h₂]
  by_cases hd₁ : o₁ = "default"
  · have hd₂ : o₂ ≠ "default" := fun hd₂ => hne (hd₁.trans hd₂.symm)
    simp [hd₁, hd₂]
  · by_cases hd₂ : o₂ = "default" <;> simp [hd₁, hd₂]

/-- The organization's calls are made with the credentials of the default organization:
it is that organization, or it selected the Razorpay agentic adapter. -/
def UsesDefault (H : Host) (import_class : String → String → Option AgenticClass)
    (org_id : String) : Prop :=
  org_id = "default" ∨ selected_class H import_class org_id = some .razorpay_agentic

/-- What keeps two organizations apart. -/
structure Apart (H : Host) (import_class : String → String → Option AgenticClass)
    (o₁ o₂ : String) : Prop where
  tags : o₁ ≠ "default" → o₂ ≠ "default" → env_tag H o₁ ≠ env_tag H o₂
  shared : ¬ (UsesDefault H import_class o₁ ∧ UsesDefault H import_class o₂)
  foreign_left : ∀ names, selected_class H import_class o₁ = some (.foreign names) →
    ∀ v ∈ names, v ∉ tenantVariables H import_class o₂
  foreign_right : ∀ names, selected_class H import_class o₂ = some (.foreign names) →
    ∀ v ∈ names, v ∉ tenantVariables H import_class o₁

theorem Apart.symm (h : Apart H import_class o₁ o₂) : Apart H import_class o₂ o₁ where
  tags hd₂ hd₁ heq := h.tags hd₁ hd₂ heq.symm
  shared hboth := h.shared hboth.symm
  foreign_left := h.foreign_right
  foreign_right := h.foreign_left

theorem mem_credentials {c : AgenticClass} {v : String}
    (hc : selected_class H import_class o₁ = some c) (hv : v ∈ c.credentials) :
    v ∈ tenantVariables H import_class o₁ := by
  refine List.mem_append_right _ ?_
  rw [hc]
  exact hv

/-- Whoever uses the default organization's credentials reads its key id. -/
theorem UsesDefault.reads (h : UsesDefault H import_class o₁) :
    "RAZORPAY_KEY_ID" ∈ tenantVariables H import_class o₁ := by
  rcases h with rfl | hclass
  · exact List.mem_append_left _ (by simp [tag_of, RazorpayAdapter.orStr, tagged, NAMES])
  · exact mem_credentials hclass (by decide)

/-- An organization whose own variables hold one of the shared names is the default. -/
theorem default_of_own (h₁ : o₁ ≠ "") {v : String}
    (hv : v ∈ NAMES.map fun name => tagged name (tag_of H o₁))
    (hshared : v ∈ AgenticClass.razorpay_agentic.credentials) : o₁ = "default" := by
  obtain ⟨name, hname, rfl⟩ := List.mem_map.mp hv
  have hplain : tagged name (tag_of H o₁) ∈ NAMES := by
    have hsub : ∀ v ∈ AgenticClass.razorpay_agentic.credentials, v ∈ NAMES := by decide
    exact hsub _ hshared
  have hnone : tag_of H o₁ = none :=
    tagged_inj hname hplain (show _ = tagged (tagged name (tag_of H o₁)) none from rfl)
  unfold tag_of at hnone
  rw [orStr_left h₁] at hnone
  by_contra hd
  exact absurd hnone (by simp [hd])

/-- The credentials of one side's adapter are not among the other side's variables. -/
theorem Apart.credentials (h : Apart H import_class o₁ o₂) (h₂ : o₂ ≠ "") {c : AgenticClass}
    (hc : selected_class H import_class o₁ = some c) {v : String} (hv : v ∈ c.credentials) :
    v ∉ tenantVariables H import_class o₂ := by
  intro hmem
  cases c with
  | not_configured => exact absurd hv List.not_mem_nil
  | reference_autonomous => exact absurd hv List.not_mem_nil
  | foreign names => exact h.foreign_left names hc v hv hmem
  | razorpay_agentic =>
    rcases List.mem_append.mp hmem with hown | hother
    · exact h.shared ⟨.inr hc, .inl (default_of_own h₂ hown hv)⟩
    · cases hc₂ : selected_class H import_class o₂ with
      | none =>
        rw [hc₂] at hother
        exact absurd hother List.not_mem_nil
      | some c₂ =>
        rw [hc₂] at hother
        cases c₂ with
        | not_configured => exact absurd hother List.not_mem_nil
        | reference_autonomous => exact absurd hother List.not_mem_nil
        | razorpay_agentic => exact h.shared ⟨.inr hc, .inr hc₂⟩
        | foreign names =>
          exact h.foreign_right names hc₂ v hother (mem_credentials hc hv)

theorem disjoint_iff (h₁ : o₁ ≠ "") (h₂ : o₂ ≠ "") (hne : o₁ ≠ o₂) :
    (tenantVariables H import_class o₁).Disjoint (tenantVariables H import_class o₂) ↔
      Apart H import_class o₁ o₂ := by
  constructor
  · intro hdisjoint
    refine ⟨?_, ?_, ?_, ?_⟩
    · intro hd₁ hd₂ htags
      have htag := (tag_of_eq h₁ h₂ hne).mpr ⟨hd₁, hd₂, htags⟩
      have hkey : ∀ o, tagged "RAZORPAY_KEY_ID" (tag_of H o) ∈ tenantVariables H import_class o :=
        fun o => List.mem_append_left _ (List.mem_map_of_mem (by decide))
      exact hdisjoint (hkey o₁) (htag ▸ hkey o₂)
    · exact fun hboth => hdisjoint hboth.1.reads hboth.2.reads
    · exact fun names hc v hv hmem => hdisjoint (mem_credentials hc hv) hmem
    · exact fun names hc v hv hmem => hdisjoint hmem (mem_credentials hc hv)
  · intro hapart v hv₁ hv₂
    rcases List.mem_append.mp hv₁ with hown₁ | hcred₁
    · rcases List.mem_append.mp hv₂ with hown₂ | hcred₂
      · obtain ⟨name, hname, rfl⟩ := List.mem_map.mp hown₁
        obtain ⟨name', hname', heq⟩ := List.mem_map.mp hown₂
        obtain ⟨hd₁, hd₂, htags⟩ := (tag_of_eq h₁ h₂ hne).mp (tagged_inj hname hname' heq.symm)
        exact hapart.tags hd₁ hd₂ htags
      · cases hc₂ : selected_class H import_class o₂ with
        | none =>
          rw [hc₂] at hcred₂
          exact absurd hcred₂ List.not_mem_nil
        | some c₂ =>
          rw [hc₂] at hcred₂
          exact hapart.symm.credentials h₁ hc₂ hcred₂ hv₁
    · cases hc₁ : selected_class H import_class o₁ with
      | none =>
        rw [hc₁] at hcred₁
        exact absurd hcred₁ List.not_mem_nil
      | some c₁ =>
        rw [hc₁] at hcred₁
        exact hapart.credentials h₂ hc₁ hcred₁ hv₂

end

/-- **An organization is served from its own variables, as the code reads them; and two
organizations are served from different ones exactly when they are apart.** -/
theorem tenants_disjoint_iff (H : Host) (import_class : String → String → Option AgenticClass) :
    (∀ db org_id p, get_provider_for_org H db org_id = .ok p →
      p.key_id H = H.env (tagged "RAZORPAY_KEY_ID" (tag_of H org_id)) ∧
      RazorpayAdapter.orStr p.key_secret_override (H.env "RAZORPAY_KEY_SECRET") =
        H.env (tagged "RAZORPAY_KEY_SECRET" (tag_of H org_id)) ∧
      RazorpayAdapter.orStr p.webhook_secret_override (H.env "RAZORPAY_WEBHOOK_SECRET") =
        H.env (tagged "RAZORPAY_WEBHOOK_SECRET" (tag_of H org_id))) ∧
    (∀ org_id, resolve_agentic_spec H org_id =
      H.strip (H.env (tagged "PAARI_AGENTIC_PROVIDER" (tag_of H org_id)))) ∧
    (∀ cfg, RazorpayAgentic.get_config H = .ok cfg →
      [cfg.key_id, cfg.key_secret, cfg.webhook_secret] =
        AgenticClass.razorpay_agentic.credentials.map fun name => H.env name) ∧
    ∀ o₁ o₂ : String, o₁ ≠ "" → o₂ ≠ "" → o₁ ≠ o₂ →
      ((tenantVariables H import_class o₁).Disjoint (tenantVariables H import_class o₂) ↔
        Apart H import_class o₁ o₂) :=
  ⟨fun _ _ _ => provider_reads, agentic_spec_reads H, fun _ => razorpay_agentic_reads,
    fun _ _ => disjoint_iff⟩

namespace Sample

/-- A host that reads ASCII letters, where `zen` selected the Razorpay agentic adapter. -/
def tagHost : Host :=
  { host false [] with
    upper := fun s => String.ofList (s.toList.map Char.toUpper)
    strip_nonword := fun s => String.ofList (s.toList.filter fun c => c.isAlphanum || c == '_')
    environ := fun name =>
      if name = "PAARI_AGENTIC_PROVIDER__ZEN" then
        some "app.providers.razorpay_agentic:RazorpayAgenticProvider"
      else none }

def importClass (module_name class_name : String) : Option AgenticClass :=
  if module_name = "app.providers.razorpay_agentic" ∧ class_name = "RazorpayAgenticProvider" then
    some .razorpay_agentic
  else none

end Sample

/-- Two organizations whose ids differ in a hyphen share every variable, and one that
selects the Razorpay agentic adapter pays with the default organization's keys. -/
theorem tenants_share :
    ¬ (tenantVariables Sample.tagHost Sample.importClass "acme-1").Disjoint
        (tenantVariables Sample.tagHost Sample.importClass "acme1") ∧
    ¬ (tenantVariables Sample.tagHost Sample.importClass "zen").Disjoint
        (tenantVariables Sample.tagHost Sample.importClass "default") := by
  constructor
  · rw [disjoint_iff (by decide) (by decide) (by decide)]
    exact fun h => h.tags (by decide) (by decide) (by decide)
  · rw [disjoint_iff (by decide) (by decide) (by decide)]
    exact fun h => h.shared ⟨.inr (by rfl), .inl rfl⟩

end Paari
