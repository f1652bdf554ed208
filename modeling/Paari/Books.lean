import Paari.Ambiguity
import Paari.StatePairs

/-!
# The books of one trace

`Books t` says of a database that the trail of the trace `t` accounts for the payment
that has it: nothing is told while no authorization has the trace, and while one alone
has it the pairs walk from `AUTHORIZED` to the state of its transaction. What keeps the
books: writes that tell nothing (`Mute`), the writes of another payment (`Elsewhere`),
and a commit whose events tell the change that its own `UPDATE` makes (`Tally`).
-/

namespace Paari

open Atomic

/-! ## The books -/

/-- The authorizations and the traces they were minted on. -/
def DB.users (db : DB) : List (String × String) :=
  db.authorizations.map fun a => (a.authorization_id, a.transaction_id)

/-- A user of the trace that has it for itself. -/
def DB.Sole (db : DB) (t : String) (u : String × String) : Prop :=
  u ∈ db.users ∧ u.2 = t ∧ ∀ v ∈ db.users, v.2 = t → v = u

structure Books (t : String) (db : DB) : Prop where
  keys : (db.users.map Prod.fst).Nodup
  rows : db.Keyed
  owned : ∀ r ∈ db.txns, ∃ u ∈ db.users, u.1 = r.authorization_id
  unused : (∀ u ∈ db.users, u.2 ≠ t) → db.pairs t = []
  settled : ∀ u, db.Sole t u → walk "AUTHORIZED" (db.pairs t) = some (db.foundState u.1).word

variable {t : String} {db db' : DB}

/-- The books are kept in the authorizations, the transactions and the trail; rows keep
their owners, and the state of the trace's own payment and its pairs stay. -/
theorem Books.congr (h : Books t db) (husers : db'.users = db.users) (hrows : db'.Keyed)
    (howned : ∀ r ∈ db'.txns, ∃ u ∈ db.users, u.1 = r.authorization_id)
    (hpairs : db'.pairs t = db.pairs t)
    (hstate : ∀ u, db.Sole t u → db'.foundState u.1 = db.foundState u.1) : Books t db' := by
  refine ⟨husers ▸ h.keys, hrows, fun r hr => ?_, fun hno => ?_, fun u hu => ?_⟩
  · rw [husers]
    exact howned r hr
  · rw [hpairs]
    exact h.unused fun u hu => hno u (husers ▸ hu)
  · have hu : db.Sole t u := by
      unfold DB.Sole at hu ⊢
      rwa [husers] at hu
    rw [hpairs, hstate u hu]
    exact h.settled u hu

/-- Two authorizations with one id are one. -/
theorem Books.same (h : Books t db) {u v : String × String} (hu : u ∈ db.users) (hv : v ∈ db.users)
    (hid : u.1 = v.1) : u = v := List.inj_on_of_nodup_map h.keys hu hv hid

/-! ## The tables under one write -/

theorem users_of_authorizations (h : db'.authorizations = db.authorizations) :
    db'.users = db.users := by
  unfold DB.users
  rw [h]

theorem apply_keyed {x : Write} (h : db.apply x = some db') (hk : db.Keyed) : db'.Keyed := by
  unfold DB.Keyed at hk ⊢
  cases x with
  | updateTxn l c =>
    simp only [DB.apply] at h
    split at h
    · exact absurd h (by simp)
    · obtain rfl := Option.some.inj h
      exact nodup_updateWhere hk fun _ => rfl
  | insertTxn r =>
    obtain ⟨rows, hrows, heq⟩ := Option.bind_eq_some_iff.mp h
    obtain ⟨rfl, hclash⟩ := insertUnique_eq hrows
    rw [← Option.some.inj heq]
    exact nodup_append_one hk fun b hb => by simpa using hclash b hb
  | _ =>
    first
      | obtain rfl := Option.some.inj h
        exact hk
      | obtain ⟨_, _, hrows⟩ := Option.bind_eq_some_iff.mp h
        obtain rfl := Option.some.inj hrows
        exact hk

/-- A row that a write leaves was there before, or is its own. -/
theorem apply_owner {x : Write} (h : db.apply x = some db') {r : ProviderTransaction}
    (hr : r ∈ db'.txns) :
    (∃ r₀ ∈ db.txns, r₀.authorization_id = r.authorization_id) ∨ x = .insertTxn r := by
  cases x with
  | updateTxn l c =>
    simp only [DB.apply] at h
    split at h
    · exact absurd h (by simp)
    · obtain rfl := Option.some.inj h
      obtain ⟨r₀, hr₀, rfl⟩ := mem_updateWhere.mp hr
      refine .inl ⟨r₀, hr₀, ?_⟩
      split <;> rfl
  | insertTxn r' =>
    obtain ⟨rows, hrows, heq⟩ := Option.bind_eq_some_iff.mp h
    obtain ⟨rfl, -⟩ := insertUnique_eq hrows
    rw [← Option.some.inj heq] at hr
    rcases List.mem_append.mp hr with hr | hr
    · exact .inl ⟨r, hr, rfl⟩
    · rw [List.mem_singleton.mp hr]
      exact .inr rfl
  | _ =>
    first
      | obtain rfl := Option.some.inj h
        exact .inl ⟨r, hr, rfl⟩
      | obtain ⟨_, _, hrows⟩ := Option.bind_eq_some_iff.mp h
        obtain rfl := Option.some.inj hrows
        exact .inl ⟨r, hr, rfl⟩

/-- What a write adds to the pairs of a trace. -/
def Write.told (t : String) : Write → List (String × String)
  | .insertAudit e => if e.transaction_id = t then e.pair.toList else []
  | _ => []

theorem apply_pairs {x : Write} (h : db.apply x = some db') :
    db'.pairs t = db.pairs t ++ x.told t := by
  cases x with
  | insertAudit e =>
    obtain rfl := Option.some.inj h
    unfold DB.pairs DB.trace
    dsimp only [Write.told]
    rw [List.filter_append, List.filterMap_append]
    congr 1
    by_cases htrace : e.transaction_id = t
    · rw [if_pos htrace]
      simp only [List.filter_cons, htrace, beq_self_eq_true, if_true, List.filter_nil,
        List.filterMap_cons, List.filterMap_nil]
      cases e.pair <;> rfl
    · rw [if_neg htrace]
      simp [htrace]
  | updateTxn l c =>
    simp only [DB.apply] at h
    split at h
    · exact absurd h (by simp)
    · obtain rfl := Option.some.inj h
      exact (List.append_nil _).symm
  | _ =>
    first
      | obtain rfl := Option.some.inj h
        exact (List.append_nil _).symm
      | obtain ⟨_, _, hrows⟩ := Option.bind_eq_some_iff.mp h
        obtain rfl := Option.some.inj hrows
        exact (List.append_nil _).symm

/-! ## Writes that keep the books -/

/-- What a payment with the authorization `id`, on another trace, may write; no payment,
where `id` is `none`. -/
def Write.Mute (t : String) (id : Option String) : Write → Prop
  | .insertAudit e => e.transaction_id = t → e.pair = none
  | .insertTxn r => some r.authorization_id = id
  | .updateTxn l _ => some l.authorization_id = id
  | .insertAuthorization _ => False
  | _ => True

/-- The books of `t`, and a payment that is on another trace. -/
def Beside (t : String) (id : Option String) (db : DB) : Prop :=
  Books t db ∧ ∀ k, id = some k → ∃ u ∈ db.users, u.1 = k ∧ u.2 ≠ t

variable {id : Option String}

theorem Write.Mute.told {x : Write} (h : x.Mute t id) : x.told t = [] := by
  cases x with
  | insertAudit e =>
    unfold Write.told
    dsimp only
    split
    · next htrace =>
      rw [h htrace]
      rfl
    · rfl
  | _ => rfl

theorem Write.Mute.users {x : Write} (hx : x.Mute t id) (h : db.apply x = some db') :
    db'.users = db.users := by
  rcases apply_authorizations h with ⟨a, rfl, -⟩ | heq
  · exact hx.elim
  · exact users_of_authorizations heq

/-- It leaves the states of all other payments. -/
theorem Write.Mute.onState {x : Write} (hx : x.Mute t id) {k : String} (hk : id ≠ some k)
    (s : Option TxnState) : x.onState k s = s := by
  cases x with
  | insertTxn r => exact if_neg fun heq => hk (hx ▸ congrArg some heq)
  | updateTxn l c => exact if_neg fun heq => hk (hx ▸ congrArg some heq)
  | _ => rfl

theorem beside_stable (t : String) (id : Option String) : Stable (Write.Mute t id) (Beside t id) where
  write := by
    rintro db db' x hx h ⟨hb, hother⟩
    have husers := hx.users h
    refine ⟨hb.congr husers (apply_keyed h hb.rows) (fun r hr => ?_) ?_ fun u hu => ?_,
      husers ▸ hother⟩
    · rcases apply_owner h hr with ⟨r₀, hr₀, heq⟩ | rfl
      · exact heq ▸ hb.owned r₀ hr₀
      · obtain ⟨u, hu, hid, -⟩ := hother _ hx.symm
        exact ⟨u, hu, hid⟩
    · rw [apply_pairs h, hx.told]
      exact List.append_nil _
    · unfold DB.foundState
      rw [apply_stateOf h, hx.onState]
      intro heq
      obtain ⟨v, hv, hid, hne⟩ := hother _ heq
      exact hne (hb.same hv hu.1 hid ▸ hu.2.1)
  use := by
    rintro db as hterms ⟨hb, hother⟩
    have husers : DB.users { db with authorizations := as } = db.users := by
      have hmap : ∀ bs : List BoundedAuthorization,
          bs.map (fun a => (a.authorization_id, a.transaction_id)) =
            (bs.map BoundedAuthorization.terms).map fun a => (a.authorization_id, a.transaction_id) := by
        intro bs
        rw [List.map_map]
        rfl
      show as.map _ = db.authorizations.map _
      rw [hmap as, hterms, ← hmap]
    exact ⟨hb.congr husers hb.rows hb.owned rfl fun _ _ => rfl, husers ▸ hother⟩

/-! ## A new payment -/

/-- Minting keeps the books; where the new payment has the trace for itself, it starts in
`AUTHORIZED` and nothing was told. -/
theorem Books.mint (hb : Books t db) {a : BoundedAuthorization} {mid : DB}
    (hauth : db.apply (.insertAuthorization a) = some mid)
    (htxn : mid.apply (.insertTxn (record_provider_txn a)) = some db') :
    Books t db' ∧ (a.transaction_id = t → ∃ u ∈ db'.users, u.2 = t ∧
      (db'.Sole t u → db'.foundState u.1 = .AUTHORIZED)) := by
  obtain ⟨a', ha', hauths, hnew⟩ | hsame := apply_authorizations hauth
  swap
  · exact absurd hsame (by
      obtain ⟨rows, hrows, heq⟩ := Option.bind_eq_some_iff.mp hauth
      obtain ⟨rfl, -⟩ := insertUnique_eq hrows
      rw [← Option.some.inj heq]
      simp)
  obtain rfl := Write.insertAuthorization.inj ha'
  have hnew : ∀ u ∈ db.users, u.1 ≠ a.authorization_id := by
    intro u hu
    obtain ⟨b, hb, rfl⟩ := List.mem_map.mp hu
    exact hnew b hb
  have husers : db'.users = db.users ++ [(a.authorization_id, a.transaction_id)] := by
    have hkept : db'.authorizations = mid.authorizations := by
      rcases apply_authorizations htxn with ⟨_, h, _⟩ | h
      · exact absurd h (by simp)
      · exact h
    unfold DB.users
    rw [hkept, hauths, List.map_append]
    rfl
  have hpairs : db'.pairs t = db.pairs t := by
    rw [apply_pairs htxn, apply_pairs hauth]
    exact (List.append_nil _).trans (List.append_nil _)
  have hstate : ∀ k, db'.stateOf k =
      if a.authorization_id = k then some ((db.stateOf k).getD .AUTHORIZED) else db.stateOf k := by
    intro k
    rw [apply_stateOf htxn, apply_stateOf hauth]
    rfl
  have hfresh : db.stateOf a.authorization_id = none := by
    unfold DB.stateOf
    rw [Option.map_eq_none_iff, List.find?_eq_none]
    intro r hr
    obtain ⟨u, hu, hid⟩ := hb.owned r hr
    simpa [← hid] using hnew u hu
  refine ⟨⟨?_, apply_keyed htxn (apply_keyed hauth hb.rows), fun r hr => ?_, fun hno => ?_, ?_⟩, ?_⟩
  · rw [husers]
    exact nodup_append_one hb.keys fun u hu => hnew u hu
  · rw [husers]
    rcases apply_owner htxn hr with ⟨r₀, hr₀, heq⟩ | heq
    · rcases apply_owner hauth hr₀ with ⟨r₁, hr₁, heq₁⟩ | habs
      · obtain ⟨u, hu, hid⟩ := hb.owned r₁ hr₁
        exact ⟨u, List.mem_append_left _ hu, hid.trans (heq₁.trans heq)⟩
      · exact absurd habs (by simp)
    · obtain rfl := Write.insertTxn.inj heq
      exact ⟨_, List.mem_append_right _ (List.mem_singleton_self _), rfl⟩
  · rw [hpairs]
    exact hb.unused fun u hu => hno u (husers ▸ List.mem_append_left _ hu)
  · rintro u ⟨hu, htrace, hsole⟩
    rw [hpairs]
    unfold DB.foundState
    rw [husers] at hu hsole
    rw [hstate]
    rcases List.mem_append.mp hu with hu | hu
    · rw [if_neg (hnew u hu).symm]
      exact hb.settled u ⟨hu, htrace, fun v hv => hsole v (List.mem_append_left _ hv)⟩
    · obtain rfl := List.mem_singleton.mp hu
      rw [if_pos rfl, hfresh]
      rw [hb.unused fun v hv hvt => hnew v hv (by rw [hsole v (List.mem_append_left _ hv) hvt])]
      rfl
  · intro htrace
    refine ⟨(a.authorization_id, a.transaction_id), ?_, htrace, fun _ => ?_⟩
    · rw [husers]
      exact List.mem_append_right _ (List.mem_singleton_self _)
    · unfold DB.foundState
      rw [hstate, if_pos rfl, hfresh]
      rfl

/-! ## A commit that tells its own change -/

/-- What the events among some writes tell of a trace. -/
def Session.told (s : Session) (t : String) : List (String × String) := s.flatMap (·.told t)

theorem applyAll_pairs {ws : List Write} : ∀ {db db' : DB}, db.applyAll ws = .ok db' →
    db'.pairs t = db.pairs t ++ Session.told ws t := by
  induction ws with
  | nil =>
    intro db db' h
    rw [← Except.ok.inj h]
    exact (List.append_nil _).symm
  | cons x ws ih =>
    intro db db' h
    obtain ⟨mid, hmid, hrest⟩ := applyAll_cons h
    rw [ih hrest, apply_pairs hmid, List.append_assoc]
    rfl

/-- A row in hand, and pending events that tell of its trace what was done to its state
since it was loaded. -/
structure Tally (t : String) (db : DB) (s : Session) (r : Orm) : Prop where
  logs : s.All Write.Logs
  state : db.stateOf r.loaded.authorization_id = some r.loaded.state
  key : r.cur.authorization_id = r.loaded.authorization_id
  own : ∀ u ∈ db.users, u.1 = r.loaded.authorization_id → u.2 = t →
    walk r.loaded.state.word (s.told t) = some r.cur.state.word
  other : ∀ u ∈ db.users, u.1 = r.loaded.authorization_id → u.2 ≠ t → s.told t = []

theorem told_append (s : Session) (e : AuditEvent) : Session.told (s ++ [.insertAudit e]) t =
    s.told t ++ if e.transaction_id = t then e.pair.toList else [] := by
  unfold Session.told
  rw [List.flatMap_append, List.flatMap_singleton]
  rfl

theorem told_proofs {s : Session} (hs : s.OnlyProofs) : s.told t = [] := by
  unfold Session.told
  rw [List.flatMap_eq_nil_iff]
  intro x hx
  obtain ⟨p, rfl⟩ := hs x hx
  rfl

theorem Session.OnlyProofs.logs {s : Session} (hs : s.OnlyProofs) : s.All Write.Logs :=
  fun x hx => .inr (hs x hx)

namespace Tally

variable {s : Session} {r r' : Orm}

theorem fresh {row : ProviderTransaction} {k : String} (hs : s.OnlyProofs)
    (h : db.txns.find? (fun t => t.authorization_id == k) = some row) :
    Tally t db s (Orm.fresh row) := by
  have hk : row.authorization_id = k := by simpa using List.find?_some h
  refine ⟨hs.logs, ?_, rfl, fun u _ _ _ => ?_, fun _ _ _ _ => told_proofs hs⟩
  · show db.stateOf row.authorization_id = _
    unfold DB.stateOf
    rw [hk, h]
    rfl
  · rw [told_proofs hs]
    rfl

/-- Assigning other columns than the state. -/
theorem set (h : Tally t db s r) {f : ProviderTransaction → ProviderTransaction}
    (hstate : (f r.cur).state = r.cur.state)
    (hkey : (f r.cur).authorization_id = r.cur.authorization_id) : Tally t db s (r.set f) := by
  refine ⟨h.logs, h.state, hkey.trans h.key, fun u hu hid htrace => ?_, h.other⟩
  show _ = some (f r.cur).state.word
  rw [hstate]
  exact h.own u hu hid htrace

theorem fail (h : Tally t db s r) (text : String) : Tally t db s (r.fail text) := h.set rfl rfl

/-- An event that tells of no state. -/
theorem note (h : Tally t db s r) {e : AuditEvent} (he : e.pair = none) :
    Tally t db (s ++ [.insertAudit e]) r := by
  have htold : Session.told (s ++ [.insertAudit e]) t = s.told t := by
    rw [told_append, he]
    split <;> exact List.append_nil _
  refine ⟨h.logs.append (Session.all_one (Write.logs_audit e)), h.state, h.key, ?_, ?_⟩
  · rw [htold]
    exact h.own
  · rw [htold]
    exact h.other

/-- An event of the payment's trace that tells the change just made. -/
theorem tell (h : Tally t db s r) {e : AuditEvent}
    (htrace : ∀ u ∈ db.users, u.1 = r.loaded.authorization_id → e.transaction_id = u.2)
    (hpair : e.pair = some (r.cur.state.word, r'.cur.state.word)) (hloaded : r'.loaded = r.loaded)
    (hkey : r'.cur.authorization_id = r.cur.authorization_id) :
    Tally t db (s ++ [.insertAudit e]) r' := by
  refine ⟨h.logs.append (Session.all_one (Write.logs_audit e)), ?_, ?_, ?_, ?_⟩
  · rw [hloaded]
    exact h.state
  · rw [hloaded]
    exact hkey.trans h.key
  · intro u hu hid hut
    rw [hloaded] at hid ⊢
    rw [told_append, if_pos ((htrace u hu hid).trans hut), hpair, walk_append, h.own u hu hid hut]
    show walk _ [_] = _
    rw [walk, if_pos rfl]
    rfl
  · intro u hu hid hut
    rw [hloaded] at hid
    rw [told_append, if_neg (fun heq => hut ((htrace u hu hid).symm.trans heq)), h.other u hu hid hut]
    rfl

end Tally

/-- Events, proofs and updates of rows leave the owners. -/
theorem applyAll_owners {ws : List Write}
    (hws : ∀ x ∈ ws, x.Logs ∨ ∃ l c, x = .updateTxn l c) (h : db.applyAll ws = .ok db')
    (hrows : db.Keyed) (howned : ∀ r ∈ db.txns, ∃ u ∈ db.users, u.1 = r.authorization_id) :
    db'.users = db.users ∧ db'.Keyed ∧ ∀ r ∈ db'.txns, ∃ u ∈ db.users, u.1 = r.authorization_id := by
  refine applyAll_keeps_all (K := fun db' => db'.users = db.users ∧ db'.Keyed ∧
    ∀ r ∈ db'.txns, ∃ u ∈ db.users, u.1 = r.authorization_id) ?_ hws h ⟨rfl, hrows, howned⟩
  rintro mid mid' x hx hap ⟨husers, hkeyed, howned⟩
  refine ⟨?_, apply_keyed hap hkeyed, fun r hr => ?_⟩
  · rcases apply_authorizations hap with ⟨a, rfl, -⟩ | heq
    · exact absurd hx (by simp [Write.Logs])
    · exact (users_of_authorizations heq).trans husers
  · rcases apply_owner hap hr with ⟨r₀, hr₀, heq⟩ | rfl
    · exact heq ▸ howned r₀ hr₀
    · exact absurd hx (by simp [Write.Logs])

theorem onState_logs {s : Session} (hs : s.All Write.Logs) (k : String) :
    ∀ state, s.onState k state = state := by
  induction s with
  | nil => exact fun _ => rfl
  | cons x s ih =>
    intro state
    have hrest := ih (fun y hy => hs y (List.mem_cons_of_mem _ hy)) state
    rcases hs x List.mem_cons_self with ⟨e, rfl⟩ | ⟨p, rfl⟩ <;> exact hrest

/-- **A commit that tells its own change keeps the books.** -/
theorem Books.commit (hb : Books t db) {s : Session} {r : Orm} (h : Tally t db s r)
    (hdb : db.applyAll (s ++ [r.write]) = .ok db') : Books t db' := by
  obtain ⟨husers, hrows, howned⟩ := applyAll_owners (fun x hx => by
    rcases List.mem_append.mp hx with hx | hx
    · exact .inl (h.logs x hx)
    · exact .inr ⟨_, _, List.mem_singleton.mp hx⟩) hdb hb.rows hb.owned
  have hpairs : db'.pairs t = db.pairs t ++ s.told t := by
    rw [applyAll_pairs hdb]
    unfold Session.told
    rw [List.flatMap_append, List.flatMap_singleton]
    exact congrArg _ (List.append_nil _)
  have hstate : ∀ k, db'.stateOf k = r.write.onState k (db.stateOf k) := by
    intro k
    have hlogs := onState_logs h.logs k (db.stateOf k)
    rw [applyAll_stateOf hdb]
    unfold Session.onState at hlogs ⊢
    rw [List.foldl_append, hlogs]
    rfl
  -- the owner of the row
  obtain ⟨v, hv, hvid⟩ : ∃ v ∈ db.users, v.1 = r.loaded.authorization_id := by
    have hfound := h.state
    unfold DB.stateOf at hfound
    obtain ⟨row, hrow, -⟩ := Option.map_eq_some_iff.mp hfound
    obtain ⟨v, hv, hid⟩ := hb.owned row (List.mem_of_find?_eq_some hrow)
    exact ⟨v, hv, hid.trans (by simpa using List.find?_some hrow)⟩
  refine ⟨husers ▸ hb.keys, hrows, fun row hrow => husers ▸ howned row hrow, fun hno => ?_,
    fun u hu => ?_⟩
  · rw [husers] at hno
    rw [hpairs, hb.unused hno, h.other v hv hvid (hno v hv)]
    rfl
  · have hu : db.Sole t u := by
      unfold DB.Sole at hu ⊢
      rwa [husers] at hu
    have hbefore := hb.settled u hu
    unfold DB.foundState at hbefore ⊢
    rw [hstate]
    by_cases hid : u.1 = r.loaded.authorization_id
    · rw [hid, h.state] at hbefore
      have hnow : r.write.onState u.1 (db.stateOf u.1) = some r.cur.state := by
        rw [hid, h.state]
        unfold Orm.write Write.onState
        dsimp only
        rw [if_pos rfl, Option.map_some]
        split
        · next hsame => rw [hsame]
        · rfl
      rw [hpairs, walk_append, hbefore, hnow]
      exact h.own u hu.1 hid hu.2.1
    · -- another payment's row: its owner is not on the trace
      have hne : v.2 ≠ t := fun htrace => hid ((hu.2.2 v hv htrace) ▸ hvid)
      rw [hpairs, h.other v hv hvid hne, List.append_nil, hbefore]
      unfold Orm.write Write.onState
      dsimp only
      rw [if_neg fun heq => hid heq.symm]

/-- The trace of a payment, looked up. -/
theorem Books.trace_of (hb : Books t db) {u : String × String} (hu : u ∈ db.users) (d : String) :
    ((db.authorizations.find? fun a => a.authorization_id == u.1).map
      BoundedAuthorization.transaction_id).getD d = u.2 := by
  obtain ⟨a, ha, rfl⟩ := List.mem_map.mp hu
  cases hfind : db.authorizations.find? fun b => b.authorization_id == a.authorization_id with
  | none => exact absurd (List.find?_eq_none.mp hfind a ha) (by simp)
  | some b =>
    have hid : b.authorization_id = a.authorization_id := by simpa using List.find?_some hfind
    have hb' : (b.authorization_id, b.transaction_id) ∈ db.users :=
      List.mem_map_of_mem (List.mem_of_find?_eq_some hfind)
    exact congrArg Prod.snd (hb.same hb' hu hid)

end Paari
