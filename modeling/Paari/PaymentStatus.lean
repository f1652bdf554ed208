import Paari.Accounting

/-!
# The payment status the SDK reads

`get_payment_status` takes the state of a payment from the `to_state` of its audit events. The
consume route writes `current_state` instead, as the minting of an authorization does. In a run
whose trail tells every state the payment comes to, what the SDK returns is the payment's state
exactly while the last change in the trail was told as `to_state` (`Spelled`), as webhooks,
confirmations, reconciliations, dead letters and refunds do.
-/

namespace Paari

open Atomic

/-! ## The client -/

/-- `detail["to_state"]`, where it is in the detail. -/
def AuditEvent.to_state (e : AuditEvent) : Option Json := e.detail.lookup "to_state"

/-- `get_payment_status`, on the events of `/v1/audit/{transaction_id}`. -/
def Sdk.get_payment_status (events : List AuditEvent) : Option Json :=
  events.foldl (fun current_state event =>
    match event.to_state with
    | some state => some state
    | none => current_state) none

/-- It is the last `to_state` of the trail. -/
theorem get_payment_status_eq (events : List AuditEvent) : Sdk.get_payment_status events =
    (events.filterMap AuditEvent.to_state).getLast? := by
  suffices hfold : ∀ initial : Option Json, events.foldl (fun current_state event =>
      match event.to_state with
      | some state => some state
      | none => current_state) initial =
      ((events.filterMap AuditEvent.to_state).getLast?).or initial by
    exact (hfold none).trans (Option.or_none)
  induction events with
  | nil => exact fun initial => rfl
  | cons event events ih =>
    intro initial
    rw [List.foldl_cons, ih]
    cases hstate : event.to_state with
    | none => rw [List.filterMap_cons_none hstate]
    | some state =>
      rw [List.filterMap_cons_some hstate, List.getLast?_cons]
      cases (events.filterMap AuditEvent.to_state).getLast? with
      | none => rfl
      | some last => rfl

/-! ## What a trail tells -/

/-- The state an event says the payment is in now, under either name. -/
def AuditEvent.tells (e : AuditEvent) : Option Json :=
  e.to_state.or (e.detail.lookup "current_state")

/-- The states a trail tells, oldest first. -/
def DB.states (db : DB) (transaction_id : String) : List Json :=
  (db.trace transaction_id).filterMap AuditEvent.tells

/-- The last event that tells a state tells it as `to_state`, or the last `to_state` before it
is the same. -/
def Spelled (trail : List AuditEvent) : Prop :=
  ∀ pre e post state, trail = pre ++ e :: post → e.tells = some state →
    (∀ x ∈ post, x.tells = none) →
    e.to_state.isSome = true ∨ Sdk.get_payment_status pre = some state

theorem tells_of_to_state {e : AuditEvent} {state : Json}
    (h : e.to_state = some state) : e.tells = some state := by
  unfold AuditEvent.tells
  rw [h, Option.some_or]

/-- An event that tells no state has no `to_state`. -/
theorem to_state_of_tells_none {e : AuditEvent} (h : e.tells = none) :
    e.to_state = none := by
  cases hstate : e.to_state with
  | none => rfl
  | some state => exact absurd (h.symm.trans (tells_of_to_state hstate)) nofun

/-- The last event of a list that satisfies `f`. -/
theorem exists_last_of_getLast? {α β : Type} {f : α → Option β} {xs : List α} {b : β}
    (h : (xs.filterMap f).getLast? = some b) :
    ∃ pre x post, xs = pre ++ x :: post ∧ f x = some b ∧ ∀ y ∈ post, f y = none := by
  induction xs with
  | nil => exact absurd h nofun
  | cons x xs ih =>
    cases hrest : (xs.filterMap f).getLast? with
    | none =>
      have hnil := List.getLast?_eq_none_iff.mp hrest
      refine ⟨[], x, xs, rfl, ?_, fun y hy => List.filterMap_eq_nil_iff.mp hnil y hy⟩
      cases hx : f x with
      | none =>
        rw [List.filterMap_cons_none hx, hnil] at h
        exact absurd h nofun
      | some c =>
        rw [List.filterMap_cons_some hx, hnil] at h
        exact congrArg some (Option.some.inj h)
    | some c =>
      have hlast : (List.filterMap f (x :: xs)).getLast? = some c := by
        cases hx : f x with
        | none => rw [List.filterMap_cons_none hx, hrest]
        | some d => rw [List.filterMap_cons_some hx, List.getLast?_cons, hrest]; rfl
      obtain rfl := Option.some.inj (hlast.symm.trans h)
      obtain ⟨pre, y, post, rfl, hy, hpost⟩ := ih hrest
      exact ⟨x :: pre, y, post, rfl, hy, hpost⟩

/-- What the SDK reads after the last event that tells a state. -/
theorem get_payment_status_last {pre post : List AuditEvent} {e : AuditEvent}
    (hpost : ∀ x ∈ post, x.tells = none) : Sdk.get_payment_status (pre ++ e :: post) =
      e.to_state.or (Sdk.get_payment_status pre) := by
  have hsilent : post.filterMap AuditEvent.to_state = [] :=
    List.filterMap_eq_nil_iff.mpr fun x hx => to_state_of_tells_none (hpost x hx)
  rw [get_payment_status_eq, get_payment_status_eq, List.filterMap_append]
  cases hstate : e.to_state with
  | none => rw [List.filterMap_cons_none hstate, hsilent, List.append_nil, Option.none_or]
  | some state =>
    rw [List.filterMap_cons_some hstate, hsilent, List.getLast?_concat, Option.some_or]

/-- **The SDK reads the state the trail tells last exactly where it is spelled so.** -/
theorem get_payment_status_iff {trail : List AuditEvent} {state : Json}
    (hlast : (trail.filterMap AuditEvent.tells).getLast? = some state) :
    Sdk.get_payment_status trail = some state ↔ Spelled trail := by
  obtain ⟨pre, e, post, rfl, he, hpost⟩ := exists_last_of_getLast? hlast
  rw [get_payment_status_last hpost]
  constructor
  · intro hread pre' e' post' state' heq he' hpost'
    -- the last event that tells a state is the same one
    have hsame : Sdk.get_payment_status (pre' ++ e' :: post') = some state := by
      rw [← heq, get_payment_status_last hpost, hread]
    have htold : some state' = some state := by
      rw [← hlast, heq, List.filterMap_append, List.filterMap_cons_some he',
        List.filterMap_eq_nil_iff.mpr hpost', List.getLast?_concat]
    rw [get_payment_status_last hpost'] at hsame
    cases hto : e'.to_state with
    | some s => exact .inl rfl
    | none =>
      rw [hto, Option.none_or] at hsame
      exact .inr (hsame.trans htold.symm)
  · intro hspelled
    rcases hspelled pre e post state rfl he hpost with hto | hbefore
    · obtain ⟨s, hs⟩ := Option.isSome_iff_exists.mp hto
      rw [hs, Option.some_or]
      exact (tells_of_to_state hs).symm.trans he
    · rw [hbefore]
      cases hto : e.to_state with
      | none => rfl
      | some s =>
        rw [Option.some_or]
        exact (tells_of_to_state hto).symm.trans he

/-! ## Runs whose changes are audited -/

/-- From `db` to `db'`, a change of the payment's state is audited, and what is told on its
trace is its state: whatever has happened to either, the trail now ends in the state. -/
def Audited (t id : String) (db db' : DB) : Prop :=
  db'.states t = db.states t ∧ db'.stateOf id = db.stateOf id ∨
    ∀ state, db'.stateOf id = some state → (db'.states t).getLast? = some (.str state.word)

/-- Every step of the run is so. -/
def Server.Audited (H : Host) (w : World) (t id : String) (steps : List Server.Step) : Prop :=
  ∀ pre s post, steps = pre ++ s :: post →
    Paari.Audited t id (Server.run H w pre).db (Server.step H (Server.run H w pre) s).db

variable {H : Host} {w : World} {t id : String}

/-- The trail has told nothing yet, or it ends in the payment's state. -/
def Abreast (t id : String) (db : DB) : Prop :=
  db.states t = [] ∨
    ∀ state, db.stateOf id = some state → (db.states t).getLast? = some (.str state.word)

theorem Audited.abreast {db db' : DB} (h : Audited t id db db') (hdb : Abreast t id db) :
    Abreast t id db' := by
  rcases h with ⟨hstates, hstate⟩ | hnow
  · unfold Abreast
    rw [hstates, hstate]
    exact hdb
  · exact .inr hnow

theorem run_abreast {steps : List Server.Step} (hw : Abreast t id w.db)
    (haudited : Server.Audited H w t id steps) : Abreast t id (Server.run H w steps).db := by
  refine @Server.run_invariant H (fun w => Abreast t id w.db)
    (fun w s => Audited t id w.db (Server.step H w s).db) ?_ steps w hw haudited
  exact fun w s h hs => hs.abreast h

namespace Sample

theorem submission_audited : Server.Audited (host false []) freshlyMinted "trace" "auth" submission := by
  intro pre s post h
  cases pre with
  | nil =>
    obtain ⟨rfl, -⟩ := List.cons.inj h
    refine .inr fun state hstate => ?_
    obtain rfl : TxnState.PROVIDER_SUBMITTED = state :=
      Option.some.inj ((show _ = some TxnState.PROVIDER_SUBMITTED from rfl).symm.trans hstate)
    rfl
  | cons s' pre =>
    obtain ⟨-, h⟩ := List.cons.inj h
    exact absurd h (by simp)

end Sample

end Paari
