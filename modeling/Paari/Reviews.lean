import Paari.Lib.Past
import Paari.Verdicts

/-!
# Parked for step-up, or for a window

A proposal that is not refused and not allowed is parked, in one of two ways: close to the
delegated limit it waits for a step-up approval and has no window, else it has a window
and cannot be approved. Nothing but a decision changes an intent after it was stored, so
the two ways stay apart: what one mechanism may move the other never touches. `reviewing`
is what each request may commit, given its own past; `reviews_disjoint` is the result
over runs.
-/

namespace Paari

open Atomic

/-! ## Intents over time -/

/-- The second is the first later on. A decision is all that changes, and none parks. -/
structure PaymentIntent.Ages (i i' : PaymentIntent) : Prop where
  draft : i'.draft = i.draft
  review : i'.decision = .review → i.decision = .review

theorem PaymentIntent.Ages.refl (i : PaymentIntent) : i.Ages i := ⟨rfl, id⟩

theorem PaymentIntent.Ages.trans {i j k : PaymentIntent} (h : i.Ages j) (h' : j.Ages k) : i.Ages k :=
  ⟨h'.draft.trans h.draft, fun hr => h.review (h'.review hr)⟩

/-- The columns the mechanisms look at stay as they were. -/
structure PaymentIntent.Kin (i i' : PaymentIntent) : Prop where
  id : i'.intent_id = i.intent_id
  key : i'.idempotency_key = i.idempotency_key
  mfa : i'.mfa_required = i.mfa_required
  expires : i'.review_expires_at = i.review_expires_at
  created : i'.created_at = i.created_at

theorem kin_of_draft {i i' : PaymentIntent} (h : i'.draft = i.draft) : i.Kin i' where
  id := draft_id h
  key := by
    have hkey : i'.draft.idempotency_key = i.draft.idempotency_key := by rw [h]
    exact hkey
  mfa := by
    have hmfa : i'.draft.mfa_required = i.draft.mfa_required := by rw [h]
    exact hmfa
  expires := by
    have hexpires : i'.draft.review_expires_at = i.draft.review_expires_at := by rw [h]
    exact hexpires
  created := by
    have hcreated : i'.draft.created_at = i.draft.created_at := by rw [h]
    exact hcreated

theorem PaymentIntent.Ages.kin {i i' : PaymentIntent} (h : i.Ages i') : i.Kin i' := kin_of_draft h.draft

/-- An intent is for step-up or for a window: never both, and while it is parked one of
them. -/
structure PaymentIntent.Parted (i : PaymentIntent) : Prop where
  stepUp : i.mfa_required = true → i.review_expires_at = none
  window : i.decision = .review → i.mfa_required = false →
    i.review_expires_at = some (i.created_at + REVIEW_TTL)

theorem PaymentIntent.Parted.ages {i i' : PaymentIntent} (h : i.Parted) (ha : i.Ages i') : i'.Parted := by
  have hkin := ha.kin
  constructor
  · rw [hkin.mfa, hkin.expires]
    exact h.stepUp
  · intro hreview hmfa
    rw [hkin.expires, hkin.created]
    exact h.window (ha.review hreview) (hkin.mfa ▸ hmfa)

/-- Every intent is still there, as the same. -/
def DB.Ages (db db' : DB) : Prop := ∀ i ∈ db.intents, ∃ i' ∈ db'.intents, i.Ages i'

theorem DB.Ages.refl (db : DB) : db.Ages db := fun i hi => ⟨i, hi, .refl i⟩

theorem DB.Ages.trans {a b c : DB} (h : a.Ages b) (h' : b.Ages c) : a.Ages c := by
  intro i hi
  obtain ⟨j, hj, hij⟩ := h i hi
  obtain ⟨k, hk, hjk⟩ := h' j hj
  exact ⟨k, hk, hij.trans hjk⟩

/-- The write does not park an intent that is there. -/
def Write.Releases (x : Write) : Prop := ∀ id d v rs, x = .decideIntent id d v rs → d ≠ .review

section
variable {db db' : DB} {x : Write} {ws : List Write}

theorem ages_decide {i : PaymentIntent} {d : GovernanceDecision} (hd : d ≠ .review) (v : Bool)
    (rs : List String) : i.Ages (i.decide d v rs) := ⟨rfl, fun h => absurd h hd⟩

/-- A write leaves what it finds, and what it inserts. -/
theorem apply_ages (hx : x.Releases) (h : db.apply x = some db') :
    db.Ages db' ∧ ∀ i' ∈ db'.intents, x = .insertIntent i' ∨ ∃ i ∈ db.intents, i.Ages i' := by
  rcases apply_intents h with ⟨i₀, rfl, heq, -⟩ | ⟨id, d, v, rs, rfl, heq⟩ | heq
  · unfold DB.Ages
    rw [heq]
    constructor
    · exact fun i hi => ⟨i, List.mem_append_left _ hi, .refl i⟩
    · intro i' hi'
      rcases List.mem_append.mp hi' with hi' | hi'
      · exact .inr ⟨i', hi', .refl i'⟩
      · rw [List.mem_singleton.mp hi']
        exact .inl rfl
  · have hd : d ≠ .review := hx id d v rs rfl
    have hone : ∀ i : PaymentIntent, i.Ages (if (i.intent_id == id) = true then i.decide d v rs else i) := by
      intro i
      split
      · exact ages_decide hd v rs
      · exact .refl i
    unfold DB.Ages
    rw [heq]
    constructor
    · exact fun i hi => ⟨_, mem_updateWhere.mpr ⟨i, hi, rfl⟩, hone i⟩
    · intro i' hi'
      obtain ⟨i, hi, rfl⟩ := mem_updateWhere.mp hi'
      exact .inr ⟨i, hi, hone i⟩
  · unfold DB.Ages
    rw [heq]
    exact ⟨fun i hi => ⟨i, hi, .refl i⟩, fun i' hi' => .inr ⟨i', hi', .refl i'⟩⟩

/-- So does a transaction. -/
theorem applyAll_ages : ∀ {db db' : DB}, (∀ x ∈ ws, x.Releases) → db.applyAll ws = .ok db' →
    db.Ages db' ∧ ∀ i' ∈ db'.intents,
      (∃ i₀, .insertIntent i₀ ∈ ws ∧ i₀.Ages i') ∨ ∃ i ∈ db.intents, i.Ages i' := by
  induction ws with
  | nil =>
    intro db db' _ h
    rw [← Except.ok.inj h]
    exact ⟨.refl db, fun i' hi' => .inr ⟨i', hi', .refl i'⟩⟩
  | cons x ws ih =>
    intro db db' hws h
    obtain ⟨mid, hmid, hrest⟩ := applyAll_cons h
    obtain ⟨hfirst, hfrom⟩ := apply_ages (hws x List.mem_cons_self) hmid
    obtain ⟨hlast, hlate⟩ := ih (fun y hy => hws y (List.mem_cons_of_mem _ hy)) hrest
    refine ⟨hfirst.trans hlast, fun i' hi' => ?_⟩
    rcases hlate i' hi' with ⟨i₀, hi₀, hages⟩ | ⟨j, hj, hages⟩
    · exact .inl ⟨i₀, List.mem_cons_of_mem _ hi₀, hages⟩
    · rcases hfrom j hj with rfl | ⟨i, hi, hij⟩
      · exact .inl ⟨j, List.mem_cons_self, hages⟩
      · exact .inr ⟨i, hi, hij.trans hages⟩

/-- What a transaction decides is no longer parked. -/
theorem applyAll_released {id : String} {d : GovernanceDecision} {v : Bool} {rs : List String} :
    ∀ {db db' : DB}, (∀ x ∈ ws, x.Releases) → (∀ i, .insertIntent i ∉ ws) →
      .decideIntent id d v rs ∈ ws → db.applyAll ws = .ok db' →
      ∀ i' ∈ db'.intents, i'.intent_id = id → i'.decision ≠ .review := by
  induction ws with
  | nil => exact fun _ _ hmem => absurd hmem List.not_mem_nil
  | cons x ws ih =>
    intro db db' hws hnone hmem h i' hi' hid hreview
    obtain ⟨mid, hmid, hrest⟩ := applyAll_cons h
    have htail : ∀ y ∈ ws, y.Releases := fun y hy => hws y (List.mem_cons_of_mem _ hy)
    have hnotail : ∀ i, .insertIntent i ∉ ws := fun i hi => hnone i (List.mem_cons_of_mem _ hi)
    rcases List.mem_cons.mp hmem with rfl | hmem
    · -- every row of that id was decided by the first write, and nothing parks it again
      rcases (applyAll_ages htail hrest).2 i' hi' with ⟨i₀, hi₀, -⟩ | ⟨j, hj, hages⟩
      · exact hnotail i₀ hi₀
      · have hjid : j.intent_id = id := hages.kin.id.symm.trans hid
        have hd : d ≠ .review := hws _ List.mem_cons_self id d v rs rfl
        have hrows : mid.intents = updateWhere (fun i => i.intent_id == id)
            (PaymentIntent.decide d v rs) db.intents := by
          rw [← Option.some.inj hmid]
          rfl
        rw [hrows] at hj
        obtain ⟨i, -, rfl⟩ := mem_updateWhere.mp hj
        by_cases hi : (i.intent_id == id) = true
        · rw [if_pos hi] at hages
          exact hd (hages.review hreview)
        · rw [if_neg hi] at hjid
          exact hi (beq_iff_eq.mpr hjid)
    · exact ih htail hnotail hmem hrest i' hi' hid hreview

end

/-! ## What a request may commit -/

/-- What a handler has done so far. -/
abbrev Deeds := List (Stmt × World)

namespace Deeds

/-- An intent the handler has read. -/
def Read (q : Deeds) (i : PaymentIntent) : Prop := ∃ p ∈ q, i ∈ p.2.db.intents

/-- It has committed no intent yet. -/
def Fresh (q : Deeds) : Prop := ∀ p ∈ q, ∀ ws, p.1 = .commit ws → ∀ i, .insertIntent i ∉ ws

/-- The intent may be authorized: it was read while it was for step-up, or the handler stored
it and it has no window, or it was in the way of the one the handler tried to store. -/
def Mints (q : Deeds) (id : String) : Prop :=
  (∃ i, q.Read i ∧ i.intent_id = id ∧ i.mfa_required = true) ∨
  (∃ i ws w, (.commit ws, w) ∈ q ∧ w.accepts ws = true ∧ .insertIntent i ∈ ws ∧ i.intent_id = id ∧
    i.review_expires_at = none) ∨
  ∃ i ws w i', (.commit ws, w) ∈ q ∧ w.accepts ws = false ∧ .insertIntent i ∈ ws ∧ q.Read i' ∧
    i'.idempotency_key = i.idempotency_key

/-- What a commit says of intents, the handler has seen to. -/
structure Allows (q : Deeds) (key : Option String) (ws : List Write) : Prop where
  inserts : ∀ i, .insertIntent i ∈ ws → i.Parted ∧ (∃ p ∈ q, p.2.clock = i.created_at) ∧
    key = some i.idempotency_key ∧ q.Fresh
  decides : ∀ id d v rs, .decideIntent id d v rs ∈ ws →
    d = .allow ∧ (∃ i, q.Read i ∧ i.intent_id = id ∧ i.mfa_required = true) ∨
    d = .deny ∧ ∃ i, q.Read i ∧ i.intent_id = id ∧ i.review_expires_at ≠ none
  mints : ∀ u, .insertAuthorization u ∈ ws → q.Mints u.intent_id

theorem Allows.releases {q : Deeds} {key : Option String} {ws : List Write} (h : q.Allows key ws) :
    ∀ x ∈ ws, x.Releases := by
  intro x hx id d v rs heq
  obtain rfl := heq
  rcases h.decides id d v rs hx with ⟨rfl, -⟩ | ⟨rfl, -⟩ <;> exact nofun

section
variable {q q' : Deeds} (h : q <+: q')
include h

theorem Read.mono {i : PaymentIntent} (hi : q.Read i) : q'.Read i := by
  obtain ⟨p, hp, hmem⟩ := hi
  exact ⟨p, h.subset hp, hmem⟩

theorem Mints.mono {id : String} (hid : q.Mints id) : q'.Mints id := by
  rcases hid with ⟨i, hi, hrest⟩ | ⟨i, ws, w, hp, hrest⟩ | ⟨i, ws, w, i', hp, hacc, hmem, hi', hkey⟩
  · exact .inl ⟨i, hi.mono h, hrest⟩
  · exact .inr (.inl ⟨i, ws, w, h.subset hp, hrest⟩)
  · exact .inr (.inr ⟨i, ws, w, i', h.subset hp, hacc, hmem, hi'.mono h, hkey⟩)

end

end Deeds

/-- The key a request submits an intent under. -/
def Request.key : Request → Option String
  | .submit_intent _ req => some req.idempotency_key
  | _ => none

/-- The discipline of a request. -/
def Reviews (r : Request) (q : Deeds) (s : Stmt) : Prop := ∀ ws, s = .commit ws → q.Allows r.key ws

abbrev reviewing (r : Request) : Protocol World Stmt Call Answer Deeds := .past (Reviews r) fun _ _ => True

/-- A write that says nothing of intents. -/
structure Write.Apart (x : Write) : Prop where
  insert : ∀ i, x ≠ .insertIntent i
  decide : ∀ id d v rs, x ≠ .decideIntent id d v rs
  mint : ∀ u, x ≠ .insertAuthorization u

theorem Write.Logs.apart {x : Write} (h : x.Logs) : x.Apart := by
  rcases h with ⟨e, rfl⟩ | ⟨p, rfl⟩
  · exact ⟨fun _ => nofun, fun _ _ _ _ => nofun, fun _ => nofun⟩
  · exact ⟨fun _ => nofun, fun _ _ _ _ => nofun, fun _ => nofun⟩

theorem Deeds.Allows.of_apart {q : Deeds} {key : Option String} {ws : List Write}
    (hws : ∀ x ∈ ws, x.Apart) : q.Allows key ws where
  inserts i hi := absurd rfl ((hws _ hi).insert i)
  decides id d v rs hd := absurd rfl ((hws _ hd).decide id d v rs)
  mints u hu := absurd rfl ((hws _ hu).mint u)

/-- A statement whose commit says nothing of intents. -/
def Stmt.Apart (s : Stmt) : Prop := ∀ ws, s = .commit ws → ∀ x ∈ ws, x.Apart

/-- `q'` is `q` after statements that say nothing of intents. -/
def Deeds.Idle (q q' : Deeds) : Prop := ∃ more, q' = q ++ more ∧ ∀ p ∈ more, p.1.Apart

theorem Deeds.Idle.ahead {q q' : Deeds} (h : q.Idle q') : q <+: q' := by
  obtain ⟨more, rfl, -⟩ := h
  exact List.prefix_append q more

theorem Deeds.Idle.fresh {q q' : Deeds} (h : q.Idle q') (hq : q.Fresh) : q'.Fresh := by
  obtain ⟨more, rfl, hmore⟩ := h
  intro p hp ws hws i hi
  rcases List.mem_append.mp hp with hp | hp
  · exact hq p hp ws hws i hi
  · exact (hmore p hp ws hws _ hi).insert i rfl

theorem Deeds.Idle.refl (q : Deeds) : q.Idle q :=
  ⟨[], (List.append_nil q).symm, fun _ h => absurd h List.not_mem_nil⟩

theorem Deeds.Idle.trans {q q' q'' : Deeds} (h : q.Idle q') (h' : q'.Idle q'') : q.Idle q'' := by
  obtain ⟨more, rfl, hmore⟩ := h
  obtain ⟨more', rfl, hmore'⟩ := h'
  refine ⟨more ++ more', List.append_assoc _ _ _, fun p hp => ?_⟩
  rcases List.mem_append.mp hp with hp | hp
  · exact hmore p hp
  · exact hmore' p hp

theorem Deeds.Idle.one (q : Deeds) {s : Stmt} (hs : s.Apart) (w : World) : q.Idle (q ++ [(s, w)]) := by
  refine ⟨[(s, w)], rfl, fun p hp => ?_⟩
  rw [List.mem_singleton.mp hp]
  exact hs

/-! ## Rules -/

section
variable {H : Host} {r : Request} {q : Deeds} {α β : Type} {Post : β → Deeds → Prop}

theorem apart_select : Stmt.Apart .select := fun _ => nofun

theorem reviewing_stmt {s : Stmt} {k : World → Handler β} (hs : s.Apart)
    (h : ∀ w q', q.Idle q' → (s, w) ∈ q' → (k w).Conforms (reviewing r) Post q') :
    Prog.Conforms (reviewing r) Post (.stmt s k) q :=
  fun w => ⟨_, ⟨fun ws hws => .of_apart (hs ws hws), rfl⟩, h w _ (.one q hs w) (by simp)⟩

theorem reviewing_query {f : DB → α} {k : α → Handler β}
    (h : ∀ w q', q.Idle q' → (.select, w) ∈ q' → (k (f w.db)).Conforms (reviewing r) Post q') :
    (Handler.query f >>= k).Conforms (reviewing r) Post q :=
  reviewing_stmt apart_select h

theorem reviewing_now {k : Instant → Handler β}
    (h : ∀ w q', q.Idle q' → (.select, w) ∈ q' → (k w.clock).Conforms (reviewing r) Post q') :
    (Handler.now >>= k).Conforms (reviewing r) Post q :=
  reviewing_stmt apart_select h

theorem reviewing_fresh {k : Nat → Handler β}
    (h : ∀ n q', q.Idle q' → (k n).Conforms (reviewing r) Post q') :
    (Handler.fresh >>= k).Conforms (reviewing r) Post q :=
  reviewing_stmt (fun _ => nofun) fun w q' hq _ => h w.next q' hq

theorem reviewing_audit {s : Session} {a : AuditArgs} {k : Session → Handler β}
    (h : ∀ e q', q.Idle q' → (k (s ++ [.insertAudit e])).Conforms (reviewing r) Post q') :
    (record_audit H s a >>= k).Conforms (reviewing r) Post q :=
  reviewing_stmt apart_select fun _ q' hq _ => h _ q' hq

theorem reviewing_tryCommit {ws : Session} {k : Except Write Unit → Handler β}
    (hws : q.Allows r.key ws)
    (hok : ∀ w, w.accepts ws = true → (k (.ok ())).Conforms (reviewing r) Post (q ++ [(.commit ws, w)]))
    (herror : ∀ x w, w.accepts ws = false →
      (k (.error x)).Conforms (reviewing r) Post (q ++ [(.commit ws, w)])) :
    (Handler.tryCommit ws >>= k).Conforms (reviewing r) Post q := by
  intro w
  refine ⟨_, ⟨fun ws' heq => by rw [← Stmt.commit.inj heq]; exact hws, rfl⟩, ?_⟩
  show (k ((w.db.applyAll ws).map fun _ => ())).Conforms (reviewing r) Post _
  cases hdb : w.db.applyAll ws with
  | ok db' => exact hok w (accepts_ok hdb)
  | error x => exact herror x w (accepts_error hdb)

theorem reviewing_commit {ws : Session} {k : Unit → Handler β} (hws : q.Allows r.key ws)
    (h : ∀ w, w.accepts ws = true → (k ()).Conforms (reviewing r) Post (q ++ [(.commit ws, w)])) :
    (Handler.commit ws >>= k).Conforms (reviewing r) Post q := by
  refine Handler.conforms_commit fun w => ⟨_, ⟨fun ws' heq => ?_, rfl⟩, fun db hdb => ?_⟩
  · rw [← Stmt.commit.inj heq]
    exact hws
  · exact h w (accepts_ok hdb)

/-- A part that writes nothing of intents. -/
theorem reviewing_of_writes {R : α → Prop} {p : Handler α} (hp : p.Writes Write.Apart R) :
    p.Conforms (reviewing r) (fun a q' => q.Idle q' ∧ R a) q := by
  have hpart : p.Conforms (reviewing r) (fun a q' => (∃ more, q' = q ++ more ∧ ∀ d ∈ more, d.1.Apart) ∧
      ∃ _ : Unit, R a) q :=
    Prog.past_of_conforms (fun _ s _ _ hs => hs) (fun _ s hs ws hws => .of_apart (hs ws hws))
      (fun _ _ => trivial) hp
  refine Prog.conforms_mono (fun a q' h => ?_) hpart
  obtain ⟨hidle, -, hR⟩ := h
  exact ⟨hidle, hR⟩

theorem reviewing_writes {R : α → Prop} {p : Handler α} {k : α → Handler β} (hp : p.Writes Write.Apart R)
    (hk : ∀ a q', q.Idle q' → R a → (k a).Conforms (reviewing r) Post q') :
    (p >>= k).Conforms (reviewing r) Post q :=
  Prog.conforms_seq (reviewing_of_writes hp) fun a q' h => hk a q' h.1 h.2

/-- One intent by itself. -/
theorem Deeds.Allows.alone {key : Option String} {ws : List Write} {i : PaymentIntent}
    (hi : i.Parted ∧ (∃ p ∈ q, p.2.clock = i.created_at) ∧ key = some i.idempotency_key ∧ q.Fresh)
    (hws : ∀ x ∈ ws, x.Logs ∨ x = .insertIntent i) : q.Allows key ws := by
  refine ⟨fun j hj => ?_, fun id d v rs hd => ?_, fun u hu => ?_⟩
  · rcases hws _ hj with hlogs | heq
    · exact absurd rfl (hlogs.apart.insert j)
    · rw [Write.insertIntent.inj heq]
      exact hi
  · rcases hws _ hd with hlogs | heq
    · exact absurd rfl (hlogs.apart.decide id d v rs)
    · exact absurd heq nofun
  · rcases hws _ hu with hlogs | heq
    · exact absurd rfl (hlogs.apart.mint u)
    · exact absurd heq nofun

/-! ## Submitting -/

/-- A verdict that parks at most one way, with a window from the instant it was reached at. -/
structure Verdict.Parks (v : Verdict) : Prop where
  stepUp : v.mfa_required = true → v.review_expires_at = none
  window : v.decision = .review → v.mfa_required = false →
    ∃ t, v.now = some t ∧ v.review_expires_at = some (t + REVIEW_TTL)

theorem record_intent_reviewing {s : Session} (hs : s.All Write.Logs) (agent : Agent)
    {req : PaymentIntentRequest} {v : Verdict} (hv : v.Parks) (hfresh : q.Fresh)
    (hkey : r.key = some req.idempotency_key) (hnow : ∀ t, v.now = some t → ∃ p ∈ q, p.2.clock = t) :
    (record_intent H s agent req v).Conforms (reviewing r)
      (fun i q' => q <+: q' ∧ (v.review_expires_at = none → q'.Mints i.intent_id)) q := by
  refine reviewing_now fun w q₁ h₁ hw => reviewing_fresh fun n q₂ h₂ => ?_
  refine reviewing_query fun w₃ q₃ h₃ _ => reviewing_audit fun e q₄ h₄ => reviewing_audit fun e' q₅ h₅ => ?_
  have hq : q.Idle q₅ := h₁.trans (h₂.trans (h₃.trans (h₄.trans h₅)))
  have hclock : ∃ p ∈ q₅, p.2.clock = v.now.getD w.clock := by
    cases ht : v.now with
    | some t =>
      obtain ⟨p, hp, hclock⟩ := hnow t ht
      exact ⟨p, hq.ahead.subset hp, hclock⟩
    | none => exact ⟨_, (h₂.trans (h₃.trans (h₄.trans h₅))).ahead.subset hw, rfl⟩
  -- the row that is tried; the loser of a race adopts what was in its way
  have hparted : (intentRow agent req v (H.uuid4 n) (v.now.getD w.clock)).Parted := by
    refine ⟨hv.stepUp, fun hreview hmfa => ?_⟩
    obtain ⟨t, ht, hexpires⟩ := hv.window hreview hmfa
    show v.review_expires_at = some (v.now.getD w.clock + REVIEW_TTL)
    rw [hexpires, ht]
    rfl
  have hmem : .insertIntent (intentRow agent req v (H.uuid4 n) (v.now.getD w.clock)) ∈
      s ++ [.insertIntent (intentRow agent req v (H.uuid4 n) (v.now.getD w.clock))] ++
        [.insertAudit e] ++ [.insertAudit e'] := by
    simp
  refine reviewing_tryCommit
    (.alone ⟨hparted, hclock, hkey, hq.fresh hfresh⟩ (recorded_writes hs _ e e')) (fun w₆ hacc => ?_)
    fun x w₆ hrefused => ?_
  · refine reviewing_query fun w₇ q₇ h₇ hw₇ => ?_
    have hstored := h₇.ahead.subset (List.mem_append_right _ (List.mem_singleton_self _))
    refine ⟨hq.ahead.trans ((List.prefix_append _ _).trans h₇.ahead), fun hnone => ?_⟩
    refine .inr (.inl ⟨_, _, w₆, hstored, hacc, hmem, ?_, hnone⟩)
    cases hrow : w₇.db.intents.find? (fun i => i.intent_id == _) with
    | none => rfl
    | some i =>
      have hid := List.find?_some hrow
      exact (beq_iff_eq.mp hid).symm
  · split
    · next heq => exact absurd heq nofun
    · refine reviewing_query fun w₇ q₇ h₇ hw₇ => ?_
      have hstored := h₇.ahead.subset (List.mem_append_right _ (List.mem_singleton_self _))
      split
      · next i hfind =>
        have hslot := List.find?_some hfind
        rw [Bool.and_eq_true, beq_iff_eq, beq_iff_eq] at hslot
        refine ⟨hq.ahead.trans ((List.prefix_append _ _).trans h₇.ahead), fun _ => ?_⟩
        exact .inr (.inr ⟨_, _, w₆, i, hstored, hrefused, hmem,
          ⟨_, hw₇, List.mem_of_find?_eq_some hfind⟩, hslot.2⟩)
      · trivial
    · trivial

theorem deny_reviewing {s : Session} (hs : s.All Write.Logs) (agent : Agent)
    {req : PaymentIntentRequest} (hfresh : q.Fresh) (hkey : r.key = some req.idempotency_key)
    (check : String) (reasons : List String) :
    (deny H s agent req check reasons).Conforms (reviewing r) (fun _ _ => True) q := by
  refine Prog.conforms_seq (record_intent_reviewing hs agent ?_ hfresh hkey fun t ht => absurd ht nofun)
    fun _ _ _ => trivial
  exact ⟨fun h => absurd h nofun, fun h => absurd h nofun⟩

theorem mint_reviewing (intent : PaymentIntent) :
    (mint_bounded_authorization H intent).Conforms (reviewing r)
      (fun u q' => q.Idle q' ∧ u.intent_id = intent.intent_id) q :=
  reviewing_now fun _ _ h₁ _ => reviewing_now fun _ _ h₂ _ => ⟨h₁.trans h₂, rfl⟩

theorem decide_intent_reviewing {s : Session} (hs : s.All Write.Logs) (agent : Agent)
    (parent : ParentAuthority) {req : PaymentIntentRequest} {now : Instant} (hfresh : q.Fresh)
    (hkey : r.key = some req.idempotency_key) (hnow : ∃ p ∈ q, p.2.clock = now) (d : MandateDecision) :
    (decide_intent H s agent parent req now d).Conforms (reviewing r) (fun _ _ => True) q := by
  refine reviewing_query fun w q₁ h₁ _ => ?_
  have hclock : ∀ t, some now = some t → ∃ p ∈ q₁, p.2.clock = t := by
    intro t ht
    obtain ⟨p, hp, hclock⟩ := hnow
    exact ⟨p, h₁.ahead.subset hp, hclock.trans (Option.some.inj ht)⟩
  dsimp only
  split
  · next hreview =>
    refine Prog.conforms_seq (record_intent_reviewing hs agent ?_ (h₁.fresh hfresh) hkey hclock)
      fun _ _ _ => trivial
    -- step-up leaves no window; without it some check has failed, and the window opens now
    cases hmfa : stepUpRequired agent req.amount_minor_units with
    | true => exact ⟨fun _ => by simp, fun _ h => absurd h (by simp)⟩
    | false =>
      rw [hmfa] at hreview
      refine ⟨fun h => absurd h (by simp), fun _ _ => ⟨now, rfl, ?_⟩⟩
      have hfailed := (Bool.or_eq_true _ _).mp hreview
      show (if _ then _ else _) = _
      rw [if_pos]
      rw [Bool.and_eq_true]
      exact ⟨hfailed.resolve_left Bool.false_ne_true, rfl⟩
  · refine Prog.conforms_seq (record_intent_reviewing hs agent ⟨fun _ => rfl, fun h => absurd h nofun⟩
      (h₁.fresh hfresh) hkey hclock) fun i q₂ hi => ?_
    refine Prog.conforms_seq (mint_reviewing i) fun u q₃ hu => reviewing_audit fun e q₄ h₄ => ?_
    have hmints := (hi.2 rfl).mono (hu.1.trans h₄).ahead
    refine reviewing_commit ⟨fun j hj => absurd hj (by simp), fun id d v rs hd => absurd hd (by simp),
      fun u' hu' => ?_⟩ fun _ _ => trivial
    obtain rfl : u' = u := by simpa using hu'
    rw [hu.2]
    exact hmints

theorem submit_payment_intent_reviewing (ctx : RequestContext) (req : PaymentIntentRequest) :
    (submit_payment_intent H ctx req).Conforms (reviewing (.submit_intent ctx req)) (fun _ _ => True) [] := by
  have hempty : Deeds.Fresh [] := fun p hp => absurd hp List.not_mem_nil
  unfold submit_payment_intent
  cases resolve_session_token H req.session_token ctx.authorization with
  | error e => trivial
  | ok token =>
  show (Handler.attempt (authenticate H ctx token none) _).Conforms _ _ _
  refine reviewing_writes (Handler.writes_mono (fun _ h => h.elim)
    (Handler.writes_of_reads (authenticate_raises H ctx token none))) fun a q₁ h₁ ha => ?_
  cases a with
  | error e => trivial
  | ok a =>
  have hs : a.pending.All Write.Logs := by
    intro x hx
    obtain ⟨p, rfl⟩ := ha.1 a rfl x hx
    exact .inr ⟨p, rfl⟩
  dsimp only
  split
  · trivial
  refine reviewing_now fun w₂ q₂ h₂ hw₂ => reviewing_query fun w₃ q₃ h₃ _ => ?_
  split
  · exact reviewing_query fun _ _ _ _ => trivial
  refine reviewing_query fun w₄ q₄ h₄ _ => ?_
  have hfresh : q₄.Fresh := (h₁.trans (h₂.trans (h₃.trans h₄))).fresh hempty
  split
  · exact deny_reviewing hs _ hfresh rfl _ _
  split
  · exact deny_reviewing hs _ hfresh rfl _ _
  split
  · trivial
  · exact deny_reviewing hs _ hfresh rfl _ _
  split
  · trivial
  refine reviewing_writes (Handler.writes_mono ?_ (evaluate_mandate_writes hs _ _ _ _))
    fun d q₅ h₅ hd => ?_
  · exact fun _ h => h.apart
  dsimp only
  split
  · exact deny_reviewing hd _ (h₅.fresh hfresh) rfl _ _
  split
  · exact deny_reviewing hd _ (h₅.fresh hfresh) rfl _ _
  split
  · exact deny_reviewing hd _ (h₅.fresh hfresh) rfl _ _
  · exact decide_intent_reviewing hd _ _ (h₅.fresh hfresh) rfl
      ⟨_, (h₃.trans (h₄.trans h₅)).ahead.subset hw₂, rfl⟩ _

/-! ## Approving -/

theorem verify_mfa_challenge_reviewing (req : MFAVerifyRequest) :
    (verify_mfa_challenge H req).Conforms (reviewing r) (fun _ _ => True) q := by
  refine reviewing_query fun w₁ q₁ h₁ hw₁ => ?_
  split
  · trivial
  next i hi =>
  obtain ⟨hfind, hawaits⟩ := Option.filter_eq_some_iff.mp hi
  -- only an intent that was for step-up when it was read gets this far
  have hmfa : i.mfa_required = true := by
    unfold PaymentIntent.awaitsStepUp at hawaits
    rw [Bool.and_eq_true] at hawaits
    exact hawaits.2
  refine reviewing_query fun w₂ q₂ h₂ _ => reviewing_now fun w₃ q₃ h₃ _ => ?_
  split
  · trivial
  refine reviewing_query fun w₄ q₄ h₄ _ => ?_
  split
  · trivial
  refine reviewing_query fun w₅ q₅ h₅ _ => ?_
  split
  · trivial
  split
  · trivial
  · trivial
  refine Prog.conforms_seq (mint_reviewing _) fun u q₆ hu => ?_
  refine reviewing_audit fun e q₇ h₇ => reviewing_audit fun e' q₈ h₈ => ?_
  have hq : q₁.Idle q₈ := h₂.trans (h₃.trans (h₄.trans (h₅.trans (hu.1.trans (h₇.trans h₈)))))
  have hread : q₈.Read i := Deeds.Read.mono hq.ahead ⟨_, hw₁, List.mem_of_find?_eq_some hfind⟩
  refine reviewing_commit ⟨fun j hj => absurd hj (by simp), fun id d v rs hd => ?_, fun u' hu' => ?_⟩
    fun _ _ => trivial
  · simp only [List.cons_append, List.nil_append, List.mem_cons, List.not_mem_nil, or_false, reduceCtorEq,
      false_or, Write.decideIntent.injEq] at hd
    obtain ⟨rfl, rfl, -, -⟩ := hd
    exact .inl ⟨rfl, i, hread, rfl, hmfa⟩
  · obtain rfl : u' = u := by simpa using hu'
    exact .inl ⟨i, hread, hu.2.symm, hmfa⟩

/-! ## Sweeping -/

/-- A sweep that is done: it read the clock and the intents, after its first statement, and then
denied each parked intent whose window was over. -/
def Deeds.Swept (q : Deeds) : Prop :=
  ∃ first more now st rest, q = first :: more ++ [(.select, now), (.select, st)] ++ rest ∧
    ∀ i ∈ st.db.intents, i.stale now.clock = true → ∃ ws w, (.commit ws, w) ∈ rest ∧
      w.accepts ws = true ∧ (∃ v rs, .decideIntent i.intent_id .deny v rs ∈ ws) ∧
      (∀ j, .insertIntent j ∉ ws) ∧ ∀ x ∈ ws, x.Releases

/-- Among these statements is a commit that denied the intent. -/
def Deeds.Denied (q : Deeds) (id : String) : Prop :=
  ∃ ws w, (.commit ws, w) ∈ q ∧ w.accepts ws = true ∧ ∃ v rs, .decideIntent id .deny v rs ∈ ws

/-- The reviews to expire are all in the transaction, and nothing else is. -/
theorem expireReviews_reads (rows : List PaymentIntent) : ∀ s : Session,
    (expireReviews H s rows).Reads fun s' => (∀ x ∈ s, x ∈ s') ∧
      (∀ i ∈ rows, ∃ v rs, .decideIntent i.intent_id .deny v rs ∈ s') ∧
      ∀ x ∈ s', x ∈ s ∨ x.Logs ∨ ∃ i ∈ rows, ∃ v rs, x = .decideIntent i.intent_id .deny v rs := by
  induction rows with
  | nil => exact fun s => ⟨fun _ h => h, fun i hi => absurd hi List.not_mem_nil, fun _ h => .inl h⟩
  | cons i rows ih =>
    intro s
    refine Handler.reads_bind (record_audit_reads H _ _) fun s₁ hs₁ => ?_
    obtain ⟨e, -, rfl⟩ := hs₁
    refine Prog.quiet_mono (fun s' h => ?_) (ih _)
    obtain ⟨hold, hrows, hfrom⟩ := h
    refine ⟨fun x hx => hold x (by simp [hx]), fun j hj => ?_, fun x hx => ?_⟩
    · rcases List.mem_cons.mp hj with rfl | hj
      · exact ⟨_, _, hold _ (List.mem_append_left _ (List.mem_append_right _ (List.mem_singleton_self _)))⟩
      · exact hrows j hj
    · rcases hfrom x hx with hx | hlogs | ⟨j, hj, v, rs, heq⟩
      · rcases List.mem_append.mp hx with hx | hx
        · rcases List.mem_append.mp hx with hx | hx
          · exact .inl hx
          · exact .inr (.inr ⟨i, List.mem_cons_self, _, _, List.mem_singleton.mp hx⟩)
        · rw [List.mem_singleton.mp hx]
          exact .inr (.inl (Write.logs_audit e))
      · exact .inr (.inl hlogs)
      · exact .inr (.inr ⟨j, List.mem_cons_of_mem _ hj, v, rs, heq⟩)

theorem stale_expires {i : PaymentIntent} {now : Instant} (h : i.stale now = true) :
    ∃ e, i.review_expires_at = some e ∧ e ≤ now := by
  unfold PaymentIntent.stale at h
  rw [Bool.and_eq_true] at h
  cases he : i.review_expires_at with
  | none =>
    rw [he] at h
    exact absurd h.2 Bool.false_ne_true
  | some e =>
    rw [he] at h
    exact ⟨e, rfl, of_decide_eq_true h.2⟩

theorem expire_stale_reviews_reviewing {first : Stmt × World} {more : Deeds} :
    (expire_stale_reviews H).Conforms (reviewing r) (fun _ q' => q'.Swept) (first :: more) := by
  refine fun now => ⟨_, ⟨fun _ => nofun, rfl⟩, fun st => ⟨_, ⟨fun _ => nofun, rfl⟩, ?_⟩⟩
  have hq : first :: more ++ [(.select, now)] ++ [(.select, st)] =
      first :: more ++ [(.select, now), (.select, st)] := by
    rw [List.append_assoc]
    rfl
  rw [hq]
  show (expireReviews H [] (st.db.intents.filter fun i => i.stale now.clock) >>= _ :
    Handler Nat).Conforms _ _ _
  refine reviewing_writes (Handler.writes_mono (fun _ h => h.elim)
    (Handler.writes_of_reads (expireReviews_reads (st.db.intents.filter fun i => i.stale now.clock) [])))
    fun s q' hidle hs => ?_
  obtain ⟨-, hrows, hfrom⟩ := hs
  obtain ⟨rest, rfl, -⟩ := hidle
  have hstale : ∀ i ∈ st.db.intents.filter fun i => i.stale now.clock,
      i ∈ st.db.intents ∧ i.stale now.clock = true := fun i hi => List.mem_filter.mp hi
  show (if !(st.db.intents.filter fun i => i.stale now.clock).isEmpty then _ else _ :
    Handler Nat).Conforms _ _ _
  -- with nothing stale the sweep commits nothing
  split
  · have hallows : Deeds.Allows (first :: more ++ [(.select, now), (.select, st)] ++ rest) r.key s := by
      refine ⟨fun j hj => ?_, fun id d v rs hd => ?_, fun u hu => ?_⟩
      · rcases hfrom _ hj with h | hlogs | ⟨_, _, _, _, heq⟩
        · exact absurd h List.not_mem_nil
        · exact absurd rfl (hlogs.apart.insert j)
        · exact absurd heq nofun
      · rcases hfrom _ hd with h | hlogs | ⟨i, hi, v', rs', heq⟩
        · exact absurd h List.not_mem_nil
        · exact absurd rfl (hlogs.apart.decide id d v rs)
        · obtain ⟨rfl, rfl, -, -⟩ := Write.decideIntent.inj heq
          obtain ⟨hmem, hover⟩ := hstale i hi
          obtain ⟨e, he, -⟩ := stale_expires hover
          refine .inr ⟨rfl, i, ⟨(.select, st), by simp, hmem⟩, rfl, ?_⟩
          rw [he]
          exact nofun
      · rcases hfrom _ hu with h | hlogs | ⟨_, _, _, _, heq⟩
        · exact absurd h List.not_mem_nil
        · exact absurd rfl (hlogs.apart.mint u)
        · exact absurd heq nofun
    refine reviewing_commit hallows fun w hacc => ?_
    refine ⟨first, more, now, st, rest ++ [(.commit s, w)], by simp, fun i hi hover => ?_⟩
    refine ⟨s, w, by simp, hacc, hrows i (List.mem_filter.mpr ⟨hi, hover⟩), fun j hj => ?_, hallows.releases⟩
    rcases hfrom _ hj with h | hlogs | ⟨_, _, _, _, heq⟩
    · exact absurd h List.not_mem_nil
    · exact absurd rfl (hlogs.apart.insert j)
    · exact absurd heq nofun
  · next hempty =>
    refine ⟨first, more, now, st, rest, rfl, fun i hi hover => ?_⟩
    have hmem : i ∈ st.db.intents.filter fun i => i.stale now.clock := List.mem_filter.mpr ⟨hi, hover⟩
    have hnil : (st.db.intents.filter fun i => i.stale now.clock) = [] := by simpa using hempty
    rw [hnil] at hmem
    exact absurd hmem List.not_mem_nil

theorem sweep_reviewing (key : String) :
    (sweep_mandate_lifecycle H key).Conforms (reviewing r)
      (fun reply q' => (∃ m n, reply = .swept m n) → q'.Swept) [] := by
  unfold sweep_mandate_lifecycle
  cases hadmin : H.require_admin key with
  | error e =>
    intro h
    obtain ⟨m, n, heq⟩ := h
    unfold Host.require_admin at hadmin
    split at hadmin
    · exact absurd hadmin nofun
    · rw [← Except.error.inj hadmin] at heq
      exact absurd heq nofun
  | ok u =>
  have hmandates : (sweep_expired_mandates H).Conforms (reviewing r)
      (fun _ q' => ∃ first more, q' = first :: more) [] := by
    intro w
    obtain ⟨_, -, hrest⟩ := (sweep_expired_mandates_writes (H := H) (P := Write.Apart)
      (fun _ hx => hx.logs.apart) fun _ => ⟨fun _ => nofun, fun _ _ _ _ => nofun, fun _ => nofun⟩) w
    refine ⟨_, ⟨fun _ => nofun, rfl⟩, Prog.conforms_mono (fun _ q' h => ?_) (reviewing_of_writes hrest)⟩
    obtain ⟨⟨more, rfl, -⟩, -⟩ := h
    exact ⟨_, more, rfl⟩
  show (sweep_expired_mandates H >>= _ : Handler Reply).Conforms _ _ _
  refine Prog.conforms_seq hmandates fun m q₁ h₁ => ?_
  obtain ⟨first, more, rfl⟩ := h₁
  exact Prog.conforms_seq expire_stale_reviews_reviewing fun n q₂ h₂ _ => h₂

/-! ## Every request -/

/-- Requests other than these three write nothing of intents but logs. -/
theorem Request.Allows.apart {x : Write} (h : r.Allows x) (hsubmit : ∀ ctx req, r ≠ .submit_intent ctx req)
    (hverify : ∀ req, r ≠ .mfa_verify req) (hsweep : ∀ key, r ≠ .sweep key) : x.Apart := by
  rcases h with hlogs | hmay
  · exact hlogs.apart
  · have hsettles : x.Settles → x.Apart := by
      intro h
      cases h <;> exact ⟨fun _ => nofun, fun _ _ _ _ => nofun, fun _ => nofun⟩
    cases r with
    | submit_intent ctx req => exact absurd rfl (hsubmit ctx req)
    | mfa_verify req => exact absurd rfl (hverify req)
    | sweep key => exact absurd rfl (hsweep key)
    | consume _ _ _ => exact hsettles hmay
    | revoke_authorization _ _ _ => exact hsettles hmay
    | webhook _ _ => exact hsettles hmay
    | refund _ _ _ => exact hsettles hmay
    | reconcile _ _ _ => exact hsettles hmay
    | batch _ => exact hsettles hmay
    | _ =>
      constructor
      · intro i heq
        obtain rfl := heq
        simp [Request.mayWrite, Write.Enrols] at hmay
      · intro id d v rs heq
        obtain rfl := heq
        simp [Request.mayWrite, Write.Enrols] at hmay
      · intro u heq
        obtain rfl := heq
        simp [Request.mayWrite, Write.Enrols] at hmay

/-- **Every request keeps its discipline**, and a sweep that answers is done. -/
theorem handler_reviewing (r : Request) :
    (handler H r).Conforms (reviewing r)
      (fun reply q' => (∃ key, r = .sweep key) → (∃ m n, reply = .swept m n) → q'.Swept) [] := by
  have hother : (∀ key, r ≠ .sweep key) → (handler H r).Conforms (reviewing r) (fun _ _ => True) [] →
      (handler H r).Conforms (reviewing r)
        (fun reply q' => (∃ key, r = .sweep key) → (∃ m n, reply = .swept m n) → q'.Swept) [] := by
    intro hne
    refine Prog.conforms_mono fun _ _ _ h => ?_
    obtain ⟨key, heq⟩ := h
    exact absurd heq (hne key)
  cases r with
  | sweep key => exact Prog.conforms_mono (fun _ _ h _ => h) (sweep_reviewing key)
  | submit_intent ctx req => exact hother (fun _ => nofun) (submit_payment_intent_reviewing ctx req)
  | mfa_verify req => exact hother (fun _ => nofun) (verify_mfa_challenge_reviewing req)
  | _ =>
    refine hother (fun _ => nofun) (Prog.conforms_mono (fun _ _ _ => trivial) (reviewing_of_writes
      (Handler.writes_mono (fun x hx => ?_) (handler_writes H _))))
    exact hx.apart (fun _ _ => nofun) (fun _ => nofun) fun _ => nofun

end

/-! ## Runs -/

/-- The request of a handler. -/
def requestAt (reqs : List Request) (i : Nat) : Request := reqs[i]?.getD (.batch 0)

/-- With distinct keys a key belongs to one handler. -/
theorem requestAt_key {reqs : List Request} (hdistinct : (reqs.filterMap Request.key).Nodup)
    {i j : Nat} {key : String} (hi : (requestAt reqs i).key = some key)
    (hj : (requestAt reqs j).key = some key) : i = j := by
  have hlt : ∀ {k : Nat}, (requestAt reqs k).key = some key → k < reqs.length := by
    intro k hk
    by_contra hge
    unfold requestAt at hk
    rw [List.getElem?_eq_none (Nat.not_lt.mp hge)] at hk
    exact absurd hk nofun
  have hat : ∀ {k : Nat} (hk : k < reqs.length), requestAt reqs k = reqs[k] := by
    intro k hk
    unfold requestAt
    rw [List.getElem?_eq_getElem hk]
    rfl
  have hpairs := List.pairwise_iff_getElem.mp (List.pairwise_filterMap.mp hdistinct)
  rw [hat (hlt hi)] at hi
  rw [hat (hlt hj)] at hj
  by_contra hne
  rcases Nat.lt_or_gt_of_ne hne with hij | hji
  · exact hpairs i j (hlt (by rw [hat]; exact hi)) (hlt (by rw [hat]; exact hj)) hij key hi key hj rfl
  · exact hpairs j i (hlt (by rw [hat]; exact hj)) (hlt (by rw [hat]; exact hi)) hji key hj key hi rfl

/-- A store later on. -/
def World.Ages (w w' : World) : Prop := w.clock ≤ w'.clock ∧ w.db.Ages w'.db

theorem World.Ages.trans {a b c : World} (h : a.Ages b) (h' : b.Ages c) : a.Ages c :=
  ⟨Int.le_trans h.1 h'.1, h.2.trans h'.2⟩

/-- The tables after any number of commits: every intent was stored by some handler and is
parked at most one way, and every authorization is for an intent without a window. -/
structure Reviewed (st : World) (qs : Nat → Deeds) : Prop where
  keys : st.db.Keys
  parted : ∀ i ∈ st.db.intents, i.Parted
  owned : ∀ i ∈ st.db.intents, ∃ j ws w i₀, (.commit ws, w) ∈ qs j ∧ w.accepts ws = true ∧
    .insertIntent i₀ ∈ ws ∧ i₀.Kin i
  granted : ∀ u ∈ st.db.authorizations, ∃ i ∈ st.db.intents, i.intent_id = u.intent_id ∧
    i.review_expires_at = none

theorem PaymentIntent.Kin.trans {i j k : PaymentIntent} (h : i.Kin j) (h' : j.Kin k) : i.Kin k :=
  ⟨h'.id.trans h.id, h'.key.trans h.key, h'.mfa.trans h.mfa, h'.expires.trans h.expires,
    h'.created.trans h.created⟩

section
variable {reqs : List Request} {st w : World} {qs qs' : Nat → Deeds}
  {tr : List (Event World Stmt Call Answer)} {i : Nat} {ws : List Write}

/-- Usage counts are nothing to the reviews. -/
theorem Reviewed.uses {st' : World} (h : Reviewed st qs) (huses : Uses st.db st'.db)
    (hqs : ∀ j, qs j ⊆ qs' j) : Reviewed st' qs' ∧ st.db.Ages st'.db := by
  obtain ⟨as, hterms, hdb⟩ := huses
  have hintents : st'.db.intents = st.db.intents := by rw [hdb]
  constructor
  · refine ⟨?_, ?_, ?_, ?_⟩
    · rw [hdb]
      exact (keys_stable fun _ => True).use st.db as hterms h.keys
    · rw [hintents]
      exact h.parted
    · rw [hintents]
      intro k hk
      obtain ⟨j, ws, w, i₀, hp, hrest⟩ := h.owned k hk
      exact ⟨j, ws, w, i₀, hqs j hp, hrest⟩
    · intro u hu
      rw [hdb] at hu
      have hmem : u.terms ∈ st.db.authorizations.map BoundedAuthorization.terms := by
        rw [← hterms]
        exact List.mem_map_of_mem hu
      obtain ⟨v, hv, hvu⟩ := List.mem_map.mp hmem
      have hid : v.intent_id = u.intent_id := by
        have hid : v.terms.intent_id = u.terms.intent_id := by rw [hvu]
        exact hid
      rw [hintents, ← hid]
      exact h.granted v hv
  · intro k hk
    exact ⟨k, by rw [hintents]; exact hk, .refl k⟩

/-- What an accepted commit inserted is there after it. -/
theorem applyAll_stored : ∀ {db db' : DB}, (∀ x ∈ ws, x.Releases) → db.applyAll ws = .ok db' →
    ∀ i, .insertIntent i ∈ ws → ∃ i' ∈ db'.intents, i.Ages i' := by
  induction ws with
  | nil => exact fun _ _ i hi => absurd hi List.not_mem_nil
  | cons x ws ih =>
    intro db db' hws h i hi
    obtain ⟨mid, hmid, hrest⟩ := applyAll_cons h
    have htail : ∀ y ∈ ws, y.Releases := fun y hy => hws y (List.mem_cons_of_mem _ hy)
    rcases List.mem_cons.mp hi with rfl | hi
    · have hmem : i ∈ mid.intents := by
        obtain ⟨rows, hrows, heq⟩ := Option.bind_eq_some_iff.mp hmid
        obtain ⟨rfl, -⟩ := insertUnique_eq hrows
        rw [← Option.some.inj heq]
        exact List.mem_append_right _ (List.mem_singleton_self _)
      exact (applyAll_ages htail hrest).1 i hmem
    · exact ih htail hrest i hi

theorem exec_accepted (hacc : w.accepts ws = true) (i : Nat) :
    ∃ db', w.db.applyAll ws = .ok db' ∧ (w.exec i (.commit ws)).db = db' := by
  cases hdb : w.db.applyAll ws with
  | ok db' =>
    refine ⟨db', rfl, ?_⟩
    show (w.commit i ws).db = db'
    unfold World.commit
    rw [hdb]
    rfl
  | error x =>
    rw [accepts_error hdb] at hacc
    exact absurd hacc Bool.false_ne_true

/-- Two statements of one past: one of them came first. -/
theorem earlier {q : Deeds} {a b : Stmt × World} (ha : a ∈ q) (hb : b ∈ q) (hne : a ≠ b) :
    (∃ pre post, q = pre ++ a :: post ∧ b ∈ pre) ∨ ∃ pre post, q = pre ++ b :: post ∧ a ∈ pre := by
  obtain ⟨pre, post, rfl⟩ := List.append_of_mem ha
  rcases List.mem_append.mp hb with hb | hb
  · exact .inl ⟨pre, post, rfl, hb⟩
  · rcases List.mem_cons.mp hb with rfl | hb
    · exact absurd rfl hne
    · obtain ⟨mid, post', rfl⟩ := List.append_of_mem hb
      exact .inr ⟨pre ++ a :: mid, post', by simp, by simp⟩

/-- What holds of a pool of such requests. -/
abbrev InReview (reqs : List Request) (st : World) (tr : List (Event World Stmt Call Answer)) : Prop :=
  Pool.Kept machine (fun i => Reviews (requestAt reqs i)) Reviewed World.Ages st tr

section
variable (h : InReview reqs st tr)
include h

/-- A commit of the past was allowed when it was made. -/
theorem InReview.allows (hp : (.commit ws, w) ∈ Pool.steps i tr) : ∃ pre post,
    Pool.steps i tr = pre ++ (.commit ws, w) :: post ∧
      Deeds.Allows pre (requestAt reqs i).key ws := by
  obtain ⟨pre, post, heq⟩ := List.append_of_mem hp
  exact ⟨pre, post, heq, (h.lawful i pre _ w post heq).1 ws rfl⟩

/-- An intent that a handler read is still there. -/
theorem InReview.read {k : PaymentIntent} (hk : Deeds.Read (Pool.steps i tr) k) :
    ∃ k' ∈ st.db.intents, k.Ages k' := by
  obtain ⟨p, hp, hmem⟩ := hk
  exact (h.grown i p hp).1.2 k hmem

/-- So is one that a handler stored. -/
theorem InReview.stored {k : PaymentIntent} (hp : (.commit ws, w) ∈ Pool.steps i tr)
    (hacc : w.accepts ws = true) (hk : .insertIntent k ∈ ws) : ∃ k' ∈ st.db.intents, k.Ages k' := by
  obtain ⟨pre, post, -, hallows⟩ := h.allows hp
  obtain ⟨db', hdb, hexec⟩ := exec_accepted hacc i
  obtain ⟨k₁, hk₁, hages⟩ := applyAll_stored hallows.releases hdb k hk
  obtain ⟨k₂, hk₂, hages₂⟩ := (h.grown i _ hp).2.2 k₁ (by
    show k₁ ∈ (w.exec i (.commit ws)).db.intents
    rw [hexec]
    exact hk₁)
  exact ⟨k₂, hk₂, hages.trans hages₂⟩

/-- With distinct keys no handler finds another's intent in its way. -/
theorem InReview.unadopted (hdistinct : (reqs.filterMap Request.key).Nodup) {k k' : PaymentIntent}
    (hp : (.commit ws, w) ∈ Pool.steps i tr) (hrefused : w.accepts ws = false)
    (hk : .insertIntent k ∈ ws) (hread : Deeds.Read (Pool.steps i tr) k') :
    k'.idempotency_key ≠ k.idempotency_key := by
  intro hkey
  obtain ⟨k₁, hk₁, hages⟩ := h.read hread
  obtain ⟨j, ws', w', k₀, hp', hacc, hk₀, hkin⟩ := h.kept.owned k₁ hk₁
  obtain ⟨pre, post, heq, hallows⟩ := h.allows hp
  obtain ⟨pre', post', heq', hallows'⟩ := h.allows hp'
  have hkeys : (requestAt reqs j).key = (requestAt reqs i).key := by
    rw [(hallows.inserts k hk).2.2.1, (hallows'.inserts k₀ hk₀).2.2.1, ← hkin.key, hages.kin.key, hkey]
  -- the key names the request, so the row was stored by the handler itself
  have hij : j = i := requestAt_key hdistinct ((hallows'.inserts k₀ hk₀).2.2.1)
    (hkeys ▸ (hallows'.inserts k₀ hk₀).2.2.1)
  subst hij
  have hne : ((.commit ws, w) : Stmt × World) ≠ (.commit ws', w') := by
    intro heq
    obtain ⟨hws, rfl⟩ := Prod.mk.inj heq
    obtain rfl := Stmt.commit.inj hws
    rw [hacc] at hrefused
    exact absurd hrefused nofun
  -- and no handler stores twice
  rcases earlier hp hp' hne with ⟨pre, post, heq, hfirst⟩ | ⟨pre, post, heq, hfirst⟩
  · exact ((h.lawful j pre _ w post heq).1 ws rfl).inserts k hk |>.2.2.2 _ hfirst ws' rfl k₀ hk₀
  · exact ((h.lawful j pre _ w' post heq).1 ws' rfl).inserts k₀ hk₀ |>.2.2.2 _ hfirst ws rfl k hk

/-- What a handler may authorize is an intent without a window. -/
theorem InReview.mints (hdistinct : (reqs.filterMap Request.key).Nodup) {id : String}
    (hid : Deeds.Mints (Pool.steps i tr) id) :
    ∃ k ∈ st.db.intents, k.intent_id = id ∧ k.review_expires_at = none := by
  rcases hid with ⟨k, hread, rfl, hmfa⟩ | ⟨k, ws, w, hp, hacc, hk, rfl, hnone⟩ |
    ⟨k, ws, w, k', hp, hrefused, hk, hread, hkey⟩
  · obtain ⟨k₁, hk₁, hages⟩ := h.read hread
    exact ⟨k₁, hk₁, hages.kin.id, (h.kept.parted k₁ hk₁).stepUp (hages.kin.mfa.trans hmfa)⟩
  · obtain ⟨k₁, hk₁, hages⟩ := h.stored hp hacc hk
    exact ⟨k₁, hk₁, hages.kin.id, hages.kin.expires.trans hnone⟩
  · exact absurd hkey (h.unadopted hdistinct hp hrefused hk hread)

/-- **One statement keeps the reviews.** -/
theorem InReview.exec (hdistinct : (reqs.filterMap Request.key).Nodup) {s : Stmt}
    (hs : Reviews (requestAt reqs i) (Pool.steps i tr) s) :
    (Reviewed (st.exec i s) fun j => Pool.steps j (tr ++ [.stmt i s st])) ∧ st.Ages (st.exec i s) := by
  have hqs : ∀ j, Pool.steps j tr ⊆ Pool.steps j (tr ++ [.stmt i s st]) := by
    intro j
    rw [Pool.steps_stmt]
    exact List.subset_append_left _ _
  have hclock : st.clock ≤ (st.exec i s).clock := by rw [exec_clock]
  have hquiet : Uses st.db (st.exec i s).db →
      (Reviewed (st.exec i s) fun j => Pool.steps j (tr ++ [.stmt i s st])) ∧ st.Ages (st.exec i s) := by
    intro huses
    obtain ⟨hK, hages⟩ := h.kept.uses huses hqs
    exact ⟨hK, hclock, hages⟩
  by_cases hcommit : ∃ ws, s = .commit ws
  · obtain ⟨ws, rfl⟩ := hcommit
    have hallows := hs ws rfl
    cases hdb : st.db.applyAll ws with
    | error x =>
      refine hquiet ?_
      show Uses st.db (st.commit i ws).db
      unfold World.commit
      rw [hdb]
      exact uses_rollback st i
    | ok db' =>
      obtain ⟨db₁, hdb₁, hexec⟩ := exec_accepted (accepts_ok hdb) i
      obtain rfl : db' = db₁ := Except.ok.inj (hdb.symm.trans hdb₁)
      obtain ⟨hages, hfrom⟩ := applyAll_ages hallows.releases hdb
      refine ⟨⟨?_, ?_, ?_, ?_⟩, hclock, by rw [hexec]; exact hages⟩
      · rw [hexec]
        exact applyAll_keeps_all (keys_stable fun _ => True).write (fun _ _ => trivial) hdb h.kept.keys
      · rw [hexec]
        intro k hk
        rcases hfrom k hk with ⟨k₀, hk₀, hone⟩ | ⟨k₀, hk₀, hone⟩
        · exact (hallows.inserts k₀ hk₀).1.ages hone
        · exact (h.kept.parted k₀ hk₀).ages hone
      · rw [hexec]
        intro k hk
        rcases hfrom k hk with ⟨k₀, hk₀, hone⟩ | ⟨k₀, hk₀, hone⟩
        · refine ⟨i, ws, st, k₀, ?_, accepts_ok hdb, hk₀, hone.kin⟩
          rw [Pool.steps_stmt, if_pos rfl]
          exact List.mem_append_right _ (List.mem_singleton_self _)
        · obtain ⟨j, ws', w', k₁, hp, hacc, hk₁, hkin⟩ := h.kept.owned k₀ hk₀
          exact ⟨j, ws', w', k₁, hqs j hp, hacc, hk₁, hkin.trans hone.kin⟩
      -- an authorization was there, or the handler was entitled to mint it
      · rw [hexec]
        intro u hu
        have hwindow : ∃ k ∈ st.db.intents, k.intent_id = u.intent_id ∧ k.review_expires_at = none := by
          rcases applyAll_authorizations hdb u hu with hold | hnew
          · exact h.kept.granted u hold
          · exact h.mints hdistinct (hallows.mints u hnew)
        obtain ⟨k, hk, hid, hnone⟩ := hwindow
        obtain ⟨k', hk', hone⟩ := hages k hk
        exact ⟨k', hk', hone.kin.id.trans hid, hone.kin.expires.trans hnone⟩
  · exact hquiet (uses_exec (fun ws heq => hcommit ⟨ws, heq⟩) st i)

/-! ## The two mechanisms -/

/-- Some committed transaction decided the intent. Only a step-up approval writes `allow`, only a
sweep writes `deny`. -/
def DecidedTo (tr : List (Event World Stmt Call Answer)) (id : String) (d : GovernanceDecision) : Prop :=
  ∃ j ws w v rs, .stmt j (.commit ws) w ∈ tr ∧ w.accepts ws = true ∧ .decideIntent id d v rs ∈ ws

/-- What step-up approved has no window, what a sweep denied has one. -/
theorem InReview.decided {id : String} {d : GovernanceDecision} (hd : DecidedTo tr id d) :
    ∃ k ∈ st.db.intents, k.intent_id = id ∧
      (d = .allow ∧ k.review_expires_at = none ∨ d = .deny ∧ k.review_expires_at ≠ none) := by
  obtain ⟨j, ws, w, v, rs, htr, -, hmem⟩ := hd
  obtain ⟨pre, post, heq, hallows⟩ := h.allows (Pool.mem_steps.mpr htr)
  have hpre : pre <+: Pool.steps j tr := by
    rw [heq]
    exact List.prefix_append _ _
  rcases hallows.decides id d v rs hmem with ⟨rfl, k, hread, rfl, hmfa⟩ | ⟨rfl, k, hread, rfl, hexpires⟩
  · obtain ⟨k', hk', hages⟩ := h.read (hread.mono hpre)
    exact ⟨k', hk', hages.kin.id, .inl ⟨rfl, (h.kept.parted k' hk').stepUp (hages.kin.mfa.trans hmfa)⟩⟩
  · obtain ⟨k', hk', hages⟩ := h.read (hread.mono hpre)
    refine ⟨k', hk', hages.kin.id, .inr ⟨rfl, ?_⟩⟩
    rw [hages.kin.expires]
    exact hexpires

theorem InReview.approved {id : String} (hd : DecidedTo tr id .allow) :
    ∃ k ∈ st.db.intents, k.intent_id = id ∧ k.review_expires_at = none := by
  obtain ⟨k, hk, hid, ⟨-, hnone⟩ | ⟨habs, -⟩⟩ := h.decided hd
  · exact ⟨k, hk, hid, hnone⟩
  · exact absurd habs nofun

theorem InReview.denied {id : String} (hd : DecidedTo tr id .deny) :
    ∃ k ∈ st.db.intents, k.intent_id = id ∧ k.review_expires_at ≠ none := by
  obtain ⟨k, hk, hid, ⟨habs, -⟩ | ⟨-, hsome⟩⟩ := h.decided hd
  · exact absurd habs nofun
  · exact ⟨k, hk, hid, hsome⟩

/-- One row has a window or has none. -/
theorem InReview.exclusive {k k' : PaymentIntent} (hk : k ∈ st.db.intents) (hk' : k' ∈ st.db.intents)
    (hnone : k.review_expires_at = none) (hsome : k'.review_expires_at ≠ none) :
    k.intent_id ≠ k'.intent_id := by
  intro hid
  obtain rfl : k = k' := h.kept.keys.intent_of_id hk hk' hid
  exact hsome hnone

/-- A parked intent was evaluated at an instant that its submission read. -/
theorem InReview.evaluated {k : PaymentIntent} (hk : k ∈ st.db.intents) :
    ∃ j p, p ∈ Pool.steps j tr ∧ (requestAt reqs j).key = some k.idempotency_key ∧
      p.2.clock = k.created_at := by
  obtain ⟨j, ws, w, k₀, hp, -, hmem, hkin⟩ := h.kept.owned k hk
  obtain ⟨pre, post, heq, hallows⟩ := h.allows hp
  obtain ⟨-, ⟨p, hpre, hclock⟩, hkey, -⟩ := hallows.inserts k₀ hmem
  refine ⟨j, p, ?_, ?_, hclock.trans hkin.created.symm⟩
  · rw [heq]
    exact List.mem_append_left _ hpre
  · rw [hkin.key]
    exact hkey

/-- A sweep that is done has decided every parked intent that it read with its window over. -/
theorem InReview.swept {pre rest : Deeds} {now read : World} {k : PaymentIntent}
    (heq : Pool.steps i tr = pre ++ [(.select, now), (.select, read)] ++ rest)
    (hswept : ∀ j ∈ read.db.intents, j.stale now.clock = true → ∃ ws w, (.commit ws, w) ∈ rest ∧
      w.accepts ws = true ∧ (∃ v rs, .decideIntent j.intent_id .deny v rs ∈ ws) ∧
      (∀ j, .insertIntent j ∉ ws) ∧ ∀ x ∈ ws, x.Releases)
    (hk : k ∈ st.db.intents) (hreview : k.decision = .review) {e : Instant}
    (hexpires : k.review_expires_at = some e) (hover : e ≤ now.clock) :
    ∀ j ∈ read.db.intents, j.intent_id ≠ k.intent_id := by
  intro j hj hid
  have hread : (.select, read) ∈ Pool.steps i tr := by
    rw [heq]
    simp
  -- the row it read is the row that is parked now, so it was due
  obtain ⟨k', hk', hages⟩ := (h.grown i _ hread).1.2 j hj
  obtain rfl : k' = k := h.kept.keys.intent_of_id hk' hk (hages.kin.id.trans hid)
  have hstale : j.stale now.clock = true := by
    unfold PaymentIntent.stale
    rw [hages.review hreview, ← hages.kin.expires, hexpires]
    simpa using hover
  obtain ⟨ws, w, hcommit, hacc, ⟨v, rs, hmem⟩, hnone, hreleases⟩ := hswept j hj hstale
  obtain ⟨mid, last, rfl⟩ := List.append_of_mem hcommit
  have hsplit : Pool.steps i tr =
      (pre ++ [(.select, now), (.select, read)] ++ mid) ++ (.commit ws, w) :: last := by
    rw [heq]
    simp
  -- at the commit it was still there, after it it was decided
  obtain ⟨j₁, hj₁, hages₁⟩ := ((h.lawful i _ _ w last hsplit).2 (.select, read) (by simp)).1.2 j hj
  obtain ⟨db', hdb, hexec⟩ := exec_accepted hacc i
  obtain ⟨j₂, hj₂, hages₂⟩ := (applyAll_ages hreleases hdb).1 j₁ hj₁
  have hid₂ : j₂.intent_id = j.intent_id := (hages₁.trans hages₂).kin.id
  have hreleased := applyAll_released hreleases hnone hmem hdb j₂ hj₂ hid₂
  obtain ⟨j₃, hj₃, hages₃⟩ := (h.grown i (.commit ws, w) (by rw [hsplit]; simp)).2.2 j₂ (by
    show j₂ ∈ (w.exec i (.commit ws)).db.intents
    rw [hexec]
    exact hj₂)
  obtain rfl : j₃ = k' := h.kept.keys.intent_of_id hj₃ hk (hages₃.kin.id.trans (hid₂.trans hid))
  exact hreleased (hages₃.review hreview)

end

variable {H : Host} {c : Pool World Stmt Call Answer Reply}

/-- **The reviews of a pool.** -/
theorem reviews_pool (hkeys : w.db.Keys) (hintents : w.db.intents = []) (hauth : w.db.authorizations = [])
    (hdistinct : (reqs.filterMap Request.key).Nodup)
    (h : Pool.Reach machine Pool.Free (Pool.start w (reqs.map (handler H))) c) :
    InReview reqs c.store c.trace ∧ ∀ (i : Nat) key m n, reqs[i]? = some (.sweep key) →
      c.threads[i]? = some (.ret (.swept m n)) → Deeds.Swept (Pool.steps i c.trace) := by
  have hfollows : ∀ (i : Nat) (p : Handler Reply),
      (Pool.start w (reqs.map (handler H)) : Pool World Stmt Call Answer Reply).threads[i]? = some p →
      p.Conforms (.past (Reviews (requestAt reqs i)) fun _ _ => True)
        (fun reply q' => (∃ key, requestAt reqs i = .sweep key) → (∃ m n, reply = .swept m n) →
          Deeds.Swept q') [] := by
    intro i p hp
    have hp' : (reqs.map (handler H))[i]? = some p := hp
    rw [List.getElem?_map] at hp'
    obtain ⟨r, hr, rfl⟩ := Option.map_eq_some_iff.mp hp'
    have hat : requestAt reqs i = r := by
      unfold requestAt
      rw [hr]
      rfl
    rw [hat]
    exact handler_reviewing r
  have hreviewed : Reviewed w fun _ => [] := by
    refine ⟨hkeys, ?_, ?_, ?_⟩
    · rw [hintents]
      exact fun i hi => absurd hi List.not_mem_nil
    · rw [hintents]
      exact fun i hi => absurd hi List.not_mem_nil
    · rw [hauth]
      exact fun u hu => absurd hu List.not_mem_nil
  obtain ⟨hkept, hreturned, -⟩ := @Pool.past _ _ _ _ _ _ machine (fun i => Reviews (requestAt reqs i))
    (fun _ _ _ => True) Reviewed World.Ages _ (fun a => ⟨Int.le_refl _, .refl a.db⟩)
    (fun _ _ _ h h' => h.trans h')
    (fun st tr i s hkept hs => InReview.exec hkept hdistinct hs)
    (fun st qs i hK => by
      obtain ⟨hK', hages⟩ := hK.uses (uses_rollback st i) fun _ => List.Subset.refl _
      exact ⟨hK', (rollback_clock i st).ge, hages⟩)
    (fun st qs d hK => ⟨⟨hK.keys, hK.parted, hK.owned, hK.granted⟩,
      Int.le_add_of_nonneg_right (Int.natCast_nonneg d), .refl st.db⟩)
    _ c rfl hreviewed hfollows h
  refine ⟨hkept, fun i key m n hi hret => hreturned i _ hret ⟨key, ?_⟩ ⟨m, n, rfl⟩⟩
  unfold requestAt
  rw [hi]
  rfl

theorem requestAt_of_key {j : Nat} {key : String} (hkey : (requestAt reqs j).key = some key) :
    ∃ r, reqs[j]? = some r ∧ r.key = some key := by
  unfold requestAt at hkey
  cases hr : reqs[j]? with
  | none =>
    rw [hr] at hkey
    exact absurd hkey nofun
  | some r =>
    rw [hr] at hkey
    exact ⟨r, rfl, hkey⟩

/-- **Parked one way or the other.** However submissions, approvals, sweeps and other requests
interleave: a parked intent waits for a step-up and has no window, or has the window that
opened when its submission evaluated it; what was approved was never swept; what was swept is
never authorized; and a sweep, which denies what is stale in the table it reads, leaves parked
only what step-up can approve, what has its window open at the instant the sweep read, and
what was not yet in that table. -/
theorem reviews_disjoint (hkeys : w.db.Keys) (hintents : w.db.intents = [])
    (hauth : w.db.authorizations = []) (hdistinct : (reqs.filterMap Request.key).Nodup)
    (h : Pool.Reach machine Pool.Free (Pool.start w (reqs.map (handler H))) c) :
    (∀ i ∈ c.store.db.intents, i.decision = .review →
      (i.mfa_required = true ∧ i.review_expires_at = none ∨
        i.mfa_required = false ∧ i.review_expires_at = some (i.created_at + REVIEW_TTL)) ∧
      ∃ j r p, reqs[j]? = some r ∧ r.key = some i.idempotency_key ∧ p ∈ Pool.steps j c.trace ∧
        p.2.clock = i.created_at) ∧
    (∀ id, ¬(DecidedTo c.trace id .allow ∧ DecidedTo c.trace id .deny)) ∧
    (∀ id, DecidedTo c.trace id .deny → ∀ u ∈ c.store.db.authorizations, u.intent_id ≠ id) ∧
    ∀ (k : Nat) key m n, reqs[k]? = some (.sweep key) → c.threads[k]? = some (.ret (.swept m n)) →
      ∃ pre now read rest,
        Pool.steps k c.trace = pre ++ [(.select, now), (.select, read)] ++ rest ∧
        (∀ i ∈ read.db.intents, i.stale now.clock = true → Deeds.Denied rest i.intent_id) ∧
        ∀ i ∈ c.store.db.intents, i.decision = .review →
          i.awaitsStepUp = true ∨ (∃ e, i.review_expires_at = some e ∧ now.clock < e) ∨
          ∀ j ∈ read.db.intents, j.intent_id ≠ i.intent_id := by
  obtain ⟨hpool, hsweeps⟩ := reviews_pool hkeys hintents hauth hdistinct h
  have hparks : ∀ i ∈ c.store.db.intents, i.decision = .review →
      i.mfa_required = true ∧ i.review_expires_at = none ∨
        i.mfa_required = false ∧ i.review_expires_at = some (i.created_at + REVIEW_TTL) := by
    intro i hi hreview
    have hparted := hpool.kept.parted i hi
    cases hmfa : i.mfa_required with
    | true => exact .inl ⟨rfl, hparted.stepUp hmfa⟩
    | false => exact .inr ⟨rfl, hparted.window hreview hmfa⟩
  refine ⟨fun i hi hreview => ⟨hparks i hi hreview, ?_⟩, fun id hboth => ?_, fun id hdeny u hu hid => ?_,
    fun k key m n hk hret => ?_⟩
  · obtain ⟨j, p, hp, hkey, hclock⟩ := InReview.evaluated hpool hi
    obtain ⟨r, hr, hrkey⟩ := requestAt_of_key hkey
    exact ⟨j, r, p, hr, hrkey, hp, hclock⟩
  · obtain ⟨i, hi, hid, hnone⟩ := InReview.approved hpool hboth.1
    obtain ⟨i', hi', hid', hsome⟩ := InReview.denied hpool hboth.2
    exact InReview.exclusive hpool hi hi' hnone hsome (hid.trans hid'.symm)
  · obtain ⟨i, hi, hid', hsome⟩ := InReview.denied hpool hdeny
    obtain ⟨i', hi', hid'', hnone⟩ := hpool.kept.granted u hu
    exact InReview.exclusive hpool hi' hi hnone hsome (hid''.trans (hid.trans hid'.symm))
  · obtain ⟨first, more, now, read, rest, heq, hswept⟩ := hsweeps k key m n hk hret
    have hdenied : ∀ i ∈ read.db.intents, i.stale now.clock = true → Deeds.Denied rest i.intent_id := by
      intro i hi hstale
      obtain ⟨ws, w, hcommit, hacc, hmem, -⟩ := hswept i hi hstale
      exact ⟨ws, w, hcommit, hacc, hmem⟩
    refine ⟨first :: more, now, read, rest, heq, hdenied, fun i hi hreview => ?_⟩
    rcases hparks i hi hreview with ⟨hmfa, -⟩ | ⟨-, hwindow⟩
    · refine .inl ?_
      unfold PaymentIntent.awaitsStepUp
      rw [hreview, hmfa]
      rfl
    · by_cases hopen : now.clock < i.created_at + REVIEW_TTL
      · exact .inr (.inl ⟨_, hwindow, hopen⟩)
      · exact .inr (.inr (InReview.swept hpool heq hswept hi hreview hwindow (Int.not_lt.mp hopen)))

end

namespace Sample

/-- A mandate that asks for a review above 50 INR. -/
def careful : UserPaymentMandate := { mandate with require_review_above := some 50 }

/-- The agent under that mandate. -/
def reviewedWorld : World :=
  world { db [] [] with agents := [agent ["make_payment"] 1000], mandates := [careful] }

/-- Two payments of 100 INR, and a sweep. -/
def parking : List Request :=
  [.submit_intent ctx proposal, .submit_intent ctx { proposal with idempotency_key := "other" },
    .sweep "admin"]

/-- The first payment is parked, and its window is over when the sweep comes. The second is
evaluated with the first, and stored while the sweep is at work. -/
def outrun : Pool World Stmt Call Answer Reply :=
  (Pool.start reviewedWorld (parking.map (handler (host false [])))).run machine
    (List.replicate 40 (.run 0 (.ok .null)) ++ List.replicate 16 (.run 1 (.ok .null)) ++
      [.env 400000000] ++ List.replicate 4 (.run 2 (.ok .null)) ++
      List.replicate 40 (.run 1 (.ok .null)) ++ List.replicate 40 (.run 2 (.ok .null)))

theorem parking_distinct : (parking.filterMap Request.key).Nodup := by decide

theorem outrun_reached : Pool.Reach machine Pool.Free
    (Pool.start reviewedWorld (parking.map (handler (host false [])))) outrun :=
  Pool.reach_run _ _ _ _ .start

end Sample

set_option maxRecDepth 4000 in
/-- The sweep denied the first payment, and nothing authorizes it. -/
theorem reviews_disjoint_outrun : DecidedTo Sample.outrun.trace "u" .deny ∧
    ∀ u ∈ Sample.outrun.store.db.authorizations, u.intent_id ≠ "u" := by
  have hkeys : Sample.reviewedWorld.db.Keys :=
    ⟨List.nodup_singleton _, List.nodup_singleton _, List.nodup_nil, List.nodup_nil, List.nodup_nil⟩
  have hdecided : DecidedTo Sample.outrun.trace "u" .deny :=
    ⟨2, _, _, _, _, List.mem_append_right _ (List.mem_singleton_self _), rfl, List.mem_cons_self⟩
  exact ⟨hdecided, (reviews_disjoint hkeys rfl rfl Sample.parking_distinct Sample.outrun_reached).2.2.1
    "u" hdecided⟩

set_option maxRecDepth 4000 in
/-- Right after a sweep the second payment is parked and counted, its window over when the
sweep began. -/
theorem review_outlives_sweep :
    Pool.Reach machine Pool.Free
      (Pool.start Sample.reviewedWorld (Sample.parking.map (handler (Sample.host false []))))
      Sample.outrun ∧
    (Sample.parking.filterMap Request.key).Nodup ∧ Sample.parking[2]? = some (.sweep "admin") ∧
    Sample.outrun.threads[2]? = some (.ret (.swept 0 1)) ∧
    (∀ p ∈ Pool.steps 2 Sample.outrun.trace, p.2.clock = 400000000) ∧
    Sample.outrun.store.clock = 400000000 ∧
    daily_spend Sample.outrun.store.db Sample.careful Sample.outrun.store.clock = 100 ∧
    ∃ i ∈ Sample.outrun.store.db.intents, i.decision = .review ∧ i.mfa_required = false ∧
      i.review_expires_at = some 300000000 := by
  refine ⟨Sample.outrun_reached, Sample.parking_distinct, rfl, rfl, by decide +kernel, rfl, ?_, ?_⟩
  · decide +kernel
  · exact ⟨_, List.mem_cons_of_mem _ (List.mem_singleton_self _), rfl, rfl, rfl⟩

end Paari
