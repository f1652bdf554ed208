import Paari.Carrying

/-!
# Causal attribution

Whatever requests do, a commit that touches the rows of a payment tells the payment's origin:
its events carry the four stored labels where the payment was attributed and they record a
change of its state, and name no agent run where it was not. The changes that are recorded
without labels are left out, and the key `llm_attributed` is none of the four.
-/

namespace Paari

open Atomic

/-! ## What holds while requests run -/

/-- The phase is one a run leaves a request in. -/
def Course.Holds (db : DB) (pays : Bool) : Course → Prop
  | .off => False
  | .aside => pays = false
  | .idle => True
  | .on id => id ∈ db.ids

/-- The commit is of no payment, or of one whose origin its events tell. -/
def Accounted (L : String → Origin) (db : DB) (pays : Bool) (ws : List Write) : Prop :=
  ((∀ x ∈ ws, x.payment = none) ∧ (pays = true → ∀ e, .insertAudit e ∈ ws → e.Mute)) ∨
    ∃ id ∈ db.ids, (∀ x ∈ ws, x.payment = none ∨ x.payment = some id) ∧
      ∀ e, .insertAudit e ∈ ws → e.Tells (L id)

/-- As far as the origins are `L`, the tables are wired, no request is off the record, and
every commit so far is accounted for. -/
structure Carried (L : String → Origin) (pays : Nat → Bool) (db : DB) (qs : Nat → Course)
    (tr : List (Event World Stmt Call Answer)) : Prop where
  ids : db.ids.Nodup
  wired : Charted L db → Wired db
  courses : Charted L db → ∀ j, (qs j).Holds db (pays j)
  commits : Charted L db → ∀ j ws st, .stmt j (.commit ws) st ∈ tr → st.accepts ws = true →
    Accounted L db (pays j) ws

section
variable {L : String → Origin} {pays : Nat → Bool} {w : World} {db db' : DB} {q q' : Course}
  {qs : Nat → Course} {tr : List (Event World Stmt Call Answer)}
  {ev : Event World Stmt Call Answer} {i : Nat} {ws : List Write} {b : Bool}

theorem Charted.of_sub (h : Charted L db') (hsub : db.origins ⊆ db'.origins) : Charted L db :=
  fun o ho => h o (hsub ho)

theorem Course.Holds.mono (h : q.Holds db b) (hsub : db.ids ⊆ db'.ids) : q.Holds db' b := by
  cases q with
  | on id => exact hsub h
  | _ => exact h

theorem Accounted.mono (h : Accounted L db b ws) (hsub : db.ids ⊆ db'.ids) :
    Accounted L db' b ws :=
  h.imp id fun ⟨id, hid, hrest⟩ => ⟨id, hsub hid, hrest⟩

/-- A read on a database that a run shows. -/
theorem Course.Holds.read (h : q.Holds db b) (hq : q.Reads L db q') (hdb : Shown L db) :
    q'.Holds db b := by
  rcases hq with rfl | ⟨-, hnot⟩ | ⟨id, hid, rfl, -⟩
  · exact h
  · refine absurd ?_ hnot
    cases q with
    | on id => exact ⟨hdb, h⟩
    | _ => exact hdb
  · exact hid

theorem silent_audits (hws : ∀ x ∈ ws, x.Silent) {e : AuditEvent} (he : .insertAudit e ∈ ws) :
    e.Mute := (hws _ he).audit e rfl

/-- What a commit may do to the tables. -/
theorem Course.Allows.wires (h : q.Allows L ws) (hq : q.Holds db b) :
    ∀ x ∈ ws, x.Wires db.ids := by
  intro x hx
  cases q with
  | off => exact hq.elim
  | aside => exact .inr (.inr (h x hx))
  | idle =>
    rcases h with hsilent | ⟨i, hopens⟩
    · exact .inr (.inr (hsilent x hx).row)
    · rcases hopens.others x hx with rfl | ⟨hrow, -⟩
      · exact .inl ⟨i, rfl, hopens.sound⟩
      · exact .inr (.inr hrow)
  | on id =>
    rcases h with hsilent | htells
    · exact .inr (.inr (hsilent x hx).row)
    · exact .inr (.inl ⟨L id, id, hq, htells x hx⟩)

/-- What its events tell. -/
theorem Course.Allows.accounted (h : q.Allows L ws) (hq : q.Holds db b)
    (hdb : db.applyAll ws = .ok db') (hL : Charted L db') : Accounted L db' b ws := by
  have hsub := ids_sub (applyAll_origins_sub hdb)
  have hsilent : (∀ x ∈ ws, x.Silent) → Accounted L db' b ws := fun hws =>
    .inl ⟨fun x hx => (hws x hx).row, fun _ _ he => silent_audits hws he⟩
  cases q with
  | off => exact hq.elim
  | aside =>
    have hb : b = false := hq
    exact .inl ⟨h, fun hpays => absurd (hb.symm.trans hpays) nofun⟩
  | idle =>
    rcases h with hws | ⟨i, hopens⟩
    · exact hsilent hws
    · have hmem := applyAll_opens hdb hopens.inserts
      have horigin : L i.intent_id = i.origin := hL _ hmem
      refine .inr ⟨i.intent_id, List.mem_map_of_mem hmem, fun x hx => ?_, fun e he => ?_⟩
      · rcases hopens.others x hx with rfl | ⟨hrow, -⟩
        · exact .inr rfl
        · exact .inl hrow
      · rw [horigin]
        rcases hopens.others _ he with heq | ⟨-, htells⟩
        · exact Write.noConfusion heq
        · exact htells e rfl
  | on id =>
    rcases h with hws | htells
    · exact hsilent hws
    · exact .inr ⟨id, hsub hq, fun x hx => (htells x hx).payment_eq, fun e he =>
        (htells _ he).audit e rfl⟩

namespace Carried

theorem start (hids : db.ids.Nodup) (hwired : Wired db) (hqs : ∀ j, (qs j).Holds db (pays j)) :
    Carried L pays db qs [] where
  ids := hids
  wired _ := hwired
  courses _ := hqs
  commits _ _ _ _ hmem := absurd hmem List.not_mem_nil

/-- A step that commits nothing. -/
theorem still (h : Carried L pays db qs tr) (hdb : Uses db db')
    (hev : ∀ j ws st, ev = .stmt j (.commit ws) st → st.accepts ws = false)
    (hq : Charted L db → q'.Holds db (pays i)) :
    Carried L pays db' (Function.update qs i q') (tr ++ [ev]) := by
  have horigins := hdb.origins
  have hids : db'.ids = db.ids := by rw [DB.ids, horigins, DB.ids]
  have hL : Charted L db' → Charted L db := fun hL o ho => hL o (horigins ▸ ho)
  refine ⟨hids ▸ h.ids, fun hL' => hdb.wired (h.wired (hL hL')), fun hL' => ?_, fun hL' => ?_⟩
  · refine (Function.forall_update_iff qs fun j q => q.Holds db' (pays j)).mpr ⟨?_, fun j _ => ?_⟩
    · exact (hq (hL hL')).mono (hids ▸ List.Subset.refl _)
    · exact (h.courses (hL hL') j).mono (hids ▸ List.Subset.refl _)
  · intro j ws st hmem hacc
    rcases List.mem_append.mp hmem with hmem | hmem
    · exact (h.commits (hL hL') j ws st hmem hacc).mono (hids ▸ List.Subset.refl _)
    · have hnot := hev j ws st (List.mem_singleton.mp hmem).symm
      exact absurd (hacc.symm.trans hnot) (by simp)

/-- A commit that goes through. -/
theorem commit (h : Carried L pays w.db qs tr) (hws : (qs i).Allows L ws)
    (hdb : w.db.applyAll ws = .ok db')
    (hq : q' = qs i ∨ ∃ r, Opens r ws ∧ q' = .on r.intent_id) :
    Carried L pays db' (Function.update qs i q') (tr ++ [.stmt i (.commit ws) w]) := by
  have horigins := applyAll_origins_sub hdb
  have hsub := ids_sub horigins
  have hL : Charted L db' → Charted L w.db := fun hL => hL.of_sub horigins
  refine ⟨applyAll_ids hdb h.ids, fun hL' => ?_, fun hL' => ?_, fun hL' => ?_⟩
  · exact applyAll_wired (hws.wires (h.courses (hL hL') i)) hdb (List.Subset.refl _)
      (h.wired (hL hL'))
  · refine (Function.forall_update_iff qs fun j q => q.Holds db' (pays j)).mpr ⟨?_, fun j _ => ?_⟩
    · rcases hq with rfl | ⟨r, hopens, rfl⟩
      · exact (h.courses (hL hL') i).mono hsub
      · exact List.mem_map_of_mem (applyAll_opens hdb hopens.inserts)
    · exact (h.courses (hL hL') j).mono hsub
  · intro j ws' st hmem hacc
    rcases List.mem_append.mp hmem with hmem | hmem
    · exact (h.commits (hL hL') j ws' st hmem hacc).mono hsub
    · obtain ⟨rfl, hcommit, -⟩ := Event.stmt.inj (List.mem_singleton.mp hmem)
      obtain rfl := Stmt.commit.inj hcommit
      exact hws.accounted (h.courses (hL hL') j) hdb hL'

theorem stmt {s : Stmt} (h : Carried L pays w.db qs tr) (hs : (carrying L).stmt (qs i) s w q') :
    Carried L pays (w.exec i s).db (Function.update qs i q') (tr ++ [.stmt i s w]) := by
  have hquiet : (∀ ws, s ≠ .commit ws) → q' = qs i →
      Carried L pays (w.exec i s).db (Function.update qs i q') (tr ++ [.stmt i s w]) := by
    intro hs hq
    refine h.still (uses_exec hs w i) (fun _ ws _ heq => ?_) fun hL => hq ▸ h.courses hL i
    exact absurd (Event.stmt.inj heq).2.1 (hs ws)
  cases s with
  | select =>
    refine h.still ⟨_, rfl, rfl⟩ (fun _ _ _ heq => ?_) fun hL => ?_
    · exact Stmt.noConfusion (Event.stmt.inj heq).2.1
    · exact (h.courses hL i).read hs ⟨hL, h.wired hL⟩
  | fresh => exact hquiet (fun _ heq => Stmt.noConfusion heq) hs
  | rollback => exact hquiet (fun _ heq => Stmt.noConfusion heq) hs
  | try_gate g => exact hquiet (fun _ heq => Stmt.noConfusion heq) hs
  | reserve id spend => exact hquiet (fun _ heq => Stmt.noConfusion heq) hs
  | commit ws =>
    obtain ⟨hws, hq⟩ := hs
    show Carried L pays (w.commit i ws).db _ _
    unfold World.commit
    cases hdb : w.db.applyAll ws with
    | ok db' => exact h.commit hws hdb (hq.imp id fun ⟨_, _, r, hopens, hr⟩ => ⟨r, hopens, hr⟩)
    | error x =>
      have hacc := accepts_error hdb
      refine h.still (uses_rollback w i) (fun j ws' st heq => ?_) fun hL => ?_
      · obtain ⟨-, hcommit, hst⟩ := Event.stmt.inj heq
        obtain rfl := Stmt.commit.inj hcommit
        exact hst ▸ hacc
      · rcases hq with rfl | ⟨hok, -⟩
        · exact h.courses hL i
        · exact absurd (hacc.symm.trans hok) nofun

end Carried

end

/-- The commit inserts or updates a row of the payment: its intent, its authorization, or its
transaction. -/
def PaymentIntent.TouchedBy (db : DB) (i : PaymentIntent) (ws : List Write) : Prop :=
  (∃ r, .insertIntent r ∈ ws ∧ r.intent_id = i.intent_id) ∨
    (∃ u, .insertAuthorization u ∈ ws ∧ u.intent_id = i.intent_id) ∨
    (∃ t, .insertTxn t ∈ ws ∧ t.intent_id = i.intent_id) ∨
    ∃ t ∈ db.txns, t.intent_id = i.intent_id ∧
      ∃ l c, .updateTxn l c ∈ ws ∧ l.authorization_id = t.authorization_id

/-- In a wired database each such row is named after the intent. -/
theorem PaymentIntent.TouchedBy.payment {db : DB} {i : PaymentIntent} {ws : List Write}
    (h : i.TouchedBy db ws) (hdb : Wired db) : ∃ x ∈ ws, x.payment = some i.intent_id := by
  rcases h with ⟨r, hr, hid⟩ | ⟨u, hu, hid⟩ | ⟨t, ht, hid⟩ | ⟨t, ht, hid, l, c, hl, hkey⟩
  · exact ⟨_, hr, congrArg some hid⟩
  · exact ⟨_, hu, congrArg some hid⟩
  · exact ⟨_, ht, congrArg some hid⟩
  · refine ⟨_, hl, congrArg some ?_⟩
    obtain ⟨hnamed, -⟩ := hdb.carriers (t.authorization_id, t.intent_id) (List.mem_map_of_mem ht)
    have hnamed : t.authorization_id = t.intent_id := hnamed
    rw [hkey, hnamed, hid]

/-- The origins of a database in which no two intents share an id. -/
theorem charted_of_nodup {db : DB} (h : db.ids.Nodup) :
    Charted (fun id => (db.origins.lookup id).getD ⟨⟨none, none, none, none⟩, false⟩) db := by
  have hlookup : ∀ rows : List (String × Origin), (rows.map Prod.fst).Nodup →
      ∀ o ∈ rows, rows.lookup o.1 = some o.2 := by
    intro rows
    induction rows with
    | nil => intro _ o ho; exact absurd ho List.not_mem_nil
    | cons p rows ih =>
      intro hnodup o ho
      obtain ⟨hnew, hrest⟩ := List.nodup_cons.mp hnodup
      rcases List.mem_cons.mp ho with rfl | ho
      · exact List.lookup_cons_self
      · have hne : o.1 ≠ p.1 := fun heq => hnew (heq ▸ List.mem_map_of_mem ho)
        rw [List.lookup_cons, beq_false_of_ne hne]
        exact ih hrest o ho
  intro o ho
  show (db.origins.lookup o.1).getD _ = o.2
  rw [hlookup _ h o ho]
  rfl

namespace Sample

/-- A payment that an agent run asked for. -/
def toolCall : PaymentIntentRequest :=
  { proposal with idempotency_key := "run", llm := ⟨some "run", some "model", none, none⟩ }

/-- That payment, and a worker that parks what it cannot read. -/
def toolCalls : List Request := [.submit_intent ctx toolCall, .batch 1]

def toolRun : Pool World Stmt Call Answer Reply :=
  ((Pool.start (capable "make_payment") (toolCalls.map (handler (host false [])))).run machine
    (List.replicate 22 (.run 0 (.ok .null)))).run machine (List.replicate 10 (.run 1 (.ok .null)))

theorem toolRun_reach : Pool.Reach machine Pool.Free
    (Pool.start (capable "make_payment") (toolCalls.map (handler (host false [])))) toolRun :=
  Pool.reach_run _ _ _ _ (Pool.reach_run _ _ _ _ .start)

/-- The commits of a history that went through. -/
def commits (tr : List (Event World Stmt Call Answer)) : List (List Write) :=
  tr.filterMap fun
    | .stmt _ (.commit ws) st => if st.accepts ws then some ws else none
    | _ => none

theorem mem_commits {tr : List (Event World Stmt Call Answer)} {ws : List Write}
    (h : ws ∈ commits tr) : ∃ j st, .stmt j (.commit ws) st ∈ tr ∧ st.accepts ws = true := by
  obtain ⟨ev, hev, hws⟩ := List.mem_filterMap.mp h
  split at hws
  · next j ws' st =>
    by_cases hacc : st.accepts ws' = true
    · rw [if_pos hacc] at hws
      obtain rfl := Option.some.inj hws
      exact ⟨j, st, hev, hacc⟩
    · rw [if_neg hacc] at hws
      exact absurd hws nofun
  · exact absurd hws nofun

/-- It records the intent, or moves its transaction. -/
def touches (db : DB) (i : PaymentIntent) : Write → Bool
  | .insertIntent r => r.intent_id == i.intent_id
  | .updateTxn l _ => db.txns.any fun t =>
      t.intent_id == i.intent_id && l.authorization_id == t.authorization_id
  | _ => false

theorem touched_of_any {db : DB} {i : PaymentIntent} {ws : List Write}
    (h : ws.any (touches db i) = true) : i.TouchedBy db ws := by
  obtain ⟨x, hx, htouches⟩ := List.any_eq_true.mp h
  cases x with
  | insertIntent r => exact .inl ⟨r, hx, by simpa [touches] using htouches⟩
  | updateTxn l c =>
    obtain ⟨t, ht, hkeys⟩ := List.any_eq_true.mp htouches
    obtain ⟨hid, hkey⟩ := Bool.and_eq_true_iff.mp hkeys
    exact .inr (.inr (.inr ⟨t, ht, beq_iff_eq.mp hid, l, c, hx, beq_iff_eq.mp hkey⟩))
  | _ => exact absurd htouches Bool.false_ne_true

/-- A commit of the run that touches a payment, with one of its events. -/
def found (c : Pool World Stmt Call Answer Reply) (P : PaymentIntent → AuditEvent → Bool) : Bool :=
  (commits c.trace).any fun ws => c.store.db.intents.any fun i =>
    ws.any (touches c.store.db i) && (Session.audits ws).any (P i)

theorem found_iff {c : Pool World Stmt Call Answer Reply} {P : PaymentIntent → AuditEvent → Bool}
    (h : found c P = true) : ∃ j ws st, .stmt j (.commit ws) st ∈ c.trace ∧ st.accepts ws = true ∧
      ∃ i ∈ c.store.db.intents, i.TouchedBy c.store.db ws ∧
        ∃ e, .insertAudit e ∈ ws ∧ P i e = true := by
  obtain ⟨ws, hws, hi⟩ := List.any_eq_true.mp h
  obtain ⟨i, hmem, hboth⟩ := List.any_eq_true.mp hi
  obtain ⟨htouches, he⟩ := Bool.and_eq_true_iff.mp hboth
  obtain ⟨e, haudit, hP⟩ := List.any_eq_true.mp he
  obtain ⟨j, st, hev, hacc⟩ := mem_commits hws
  exact ⟨j, ws, st, hev, hacc, i, hmem, touched_of_any htouches, e,
    Session.mem_audits.mp haudit, hP⟩

end Sample

end Paari
