import Paari.Host

/-!
# The transition table

`TRANSITION_TABLE` is the whole machine of `ProviderTransaction.state`;
`transition_txn` is the only way the code changes the column. It checks the copy
it is given: what the row holds by the time the change is written is another
matter, and the subject of `StateIntegrity`.
-/

namespace Paari

/-- The legal next states. -/
def TRANSITION_TABLE : TxnState → List TxnState
  | .AUTHORIZED => [.PROVIDER_SUBMITTED, .FAILED, .PROVIDER_UNKNOWN, .EXPIRED, .CANCELLED]
  | .PROVIDER_SUBMITTED =>
    [.PROVIDER_AUTHORIZED, .CAPTURED, .PAID, .FAILED, .DECLINED, .PROVIDER_UNKNOWN]
  | .PROVIDER_AUTHORIZED => [.CAPTURED, .PAID, .FAILED, .DECLINED, .PROVIDER_UNKNOWN]
  | .CAPTURED => [.PAID, .PROVIDER_UNKNOWN]
  | .PAYMENT_PENDING => [.CAPTURED, .PAID, .FAILED, .DECLINED, .PROVIDER_UNKNOWN]
  | .PROVIDER_UNKNOWN =>
    [.PROVIDER_AUTHORIZED, .CAPTURED, .PAID, .FAILED, .DECLINED, .PROVIDER_SUBMITTED]
  | .FAILED => [.CAPTURED, .PAID]
  | .PAID => [.REFUNDED, .REVERSED]
  | .REFUNDED => []
  | .REVERSED => []
  | .EXPIRED => []
  | .CANCELLED => []
  | .DECLINED => []

/-- `TERMINAL_STATES`: what the reconciler no longer visits. -/
def TERMINAL_STATES : List TxnState :=
  [.PAID, .REFUNDED, .REVERSED, .EXPIRED, .CANCELLED, .DECLINED]

/-- The text of `IllegalTransitionError`. -/
def illegalTransition (txn : ProviderTransaction) (to_state : TxnState) : Exc :=
  .illegalTransition s!"Illegal transaction transition {txn.state.word} -> {to_state.word}"

/-- `transition_txn`: move the in-memory row, or raise. -/
def transition_txn (txn : ProviderTransaction) (to_state : TxnState) :
    Except Exc ProviderTransaction :=
  if to_state ∈ TRANSITION_TABLE txn.state then .ok { txn with state := to_state }
  else .error (illegalTransition txn to_state)

/-- `try: transition_txn(…) except IllegalTransitionError: pass` -/
def transition_or_pass (txn : ProviderTransaction) (to_state : TxnState) : ProviderTransaction :=
  match transition_txn txn to_state with
  | .ok txn' => txn'
  | .error _ => txn

/-- A legal move, or none. -/
def Legal (s s' : TxnState) : Prop := s' = s ∨ s' ∈ TRANSITION_TABLE s

instance (s s' : TxnState) : Decidable (Legal s s') := inferInstanceAs (Decidable (_ ∨ _))

theorem Legal.refl (s : TxnState) : Legal s s := .inl rfl

theorem transition_txn_ok {txn txn' : ProviderTransaction} {to_state : TxnState}
    (h : transition_txn txn to_state = .ok txn') :
    to_state ∈ TRANSITION_TABLE txn.state ∧ txn' = { txn with state := to_state } := by
  unfold transition_txn at h
  split at h
  · next hmem => exact ⟨hmem, (Except.ok.inj h).symm⟩
  · exact absurd h (by simp)

/-- The two outcomes of a guarded transition. -/
theorem transition_or_pass_cases (txn : ProviderTransaction) (to_state : TxnState) :
    transition_or_pass txn to_state = txn ∨
      (to_state ∈ TRANSITION_TABLE txn.state ∧
        transition_or_pass txn to_state = { txn with state := to_state }) := by
  unfold transition_or_pass
  split
  · next txn' h => exact .inr (transition_txn_ok h)
  · exact .inl rfl

theorem transition_or_pass_legal (txn : ProviderTransaction) (to_state : TxnState) :
    Legal txn.state (transition_or_pass txn to_state).state := by
  rcases transition_or_pass_cases txn to_state with h | ⟨hmem, h⟩
  · rw [h]; exact Legal.refl _
  · rw [h]; exact .inr hmem

/-- Every state named by the table as terminal has no way out but `PAID`'s two. -/
theorem terminal_exits {s s' : TxnState} (hs : s ∈ TERMINAL_STATES) (h : s' ∈ TRANSITION_TABLE s) :
    s = .PAID ∧ (s' = .REFUNDED ∨ s' = .REVERSED) := by
  cases s <;> simp_all [TERMINAL_STATES, TRANSITION_TABLE]

/-- Once `PAID`, legal moves stay within the settled states. -/
theorem legal_settled {s s' : TxnState} (h : Legal s s')
    (hs : s = .PAID ∨ s = .REFUNDED ∨ s = .REVERSED) :
    s' = .PAID ∨ s' = .REFUNDED ∨ s' = .REVERSED := by
  rcases h with rfl | h
  · exact hs
  · rcases hs with rfl | rfl | rfl <;> simp_all [TRANSITION_TABLE]

end Paari
