import Paari.Conduct.Consume
import Paari.Conduct.Webhook
import Paari.Server

/-!
# Every settlement handler keeps to the desk
-/

namespace Paari

open Atomic

/-! ## The requests -/

/-- What a request would do with the use of an authorization. -/
def Request.role : Request → Spend
  | .revoke_authorization _ _ _ => .revoke
  | _ => .consume

/-- The requests, and the background job, that touch a transaction after it was minted. -/
def Request.settles : Request → Bool
  | .consume _ _ _ | .revoke_authorization _ _ _ | .webhook _ _ | .refund _ _ _
  | .reconcile _ _ _ | .batch _ => true
  | _ => false

/-- **Every settlement request keeps to the desk.** -/
theorem handler_conforms (H : Host) {r : Request} (hr : r.settles = true) :
    (handler H r).Conforms (desk H) (fun _ _ => True) (Desk.empty r.role) := by
  cases r with
  | consume ctx id token => exact consume_authorization_conforms ctx id token rfl rfl
  | revoke_authorization ctx id token => exact revoke_authorization_conforms ctx id token rfl rfl
  | webhook raw signature => exact razorpay_webhook_conforms raw signature
  | refund ctx id req => exact refund_authorization_conforms ctx id req
  | reconcile ctx id token => exact manual_reconcile_conforms ctx id token
  | batch n => exact run_batch_conforms n
  | _ => exact absurd hr (by simp [Request.settles])

/-- The role of the `i`-th request. -/
def roleAt (reqs : List Request) (i : Nat) : Spend := (reqs[i]?.map Request.role).getD .consume

/-- A pool of settlement requests, before anything happened, follows the protocol. -/
theorem start_follows (H : Host) {reqs : List Request} (hreqs : ∀ r ∈ reqs, r.settles = true)
    (w : World) :
    (Pool.start w (reqs.map (handler H))).Follows (desk H) (fun _ _ _ => True)
      fun i => Desk.empty (roleAt reqs i) := by
  intro i p hp
  simp only [Pool.start, List.getElem?_map, Option.map_eq_some_iff] at hp
  obtain ⟨r, hr, rfl⟩ := hp
  show (handler H r).Conforms (desk H) (fun _ _ => True) (Desk.empty (roleAt reqs i))
  rw [roleAt, hr]
  exact handler_conforms H (hreqs r (List.mem_of_getElem? hr))

end Paari
