/-
# Message ids of CoAP

`CoAPMessageId_gen` (`server/CoAPMessage.c`) and `Cloud_CoAPMessageId_gen`
(`client/CoAPMessage.c`) count message ids from 1 up to 65534.  At the end of the range both
give the id 1 without counting it: the server goes back to 1 and gives 1 once more, and the
client stays where it is and gives nothing but 1 from then on.
-/
import Mathlib

namespace Iotkit.Coap

/-! ## The generators -/

def coapMaxMessageId : UInt16 := 65535

/-- `CoAPMessageId_gen`: the id, and `message_id` afterwards. -/
def coapMessageIdGen (messageId : UInt16) : UInt16 × UInt16 :=
  if coapMaxMessageId = messageId then (1, 1) else (messageId, messageId + 1)

/-- `Cloud_CoAPMessageId_gen`: the id, and `message_id` afterwards. -/
def cloudCoapMessageIdGen (messageId : UInt16) : UInt16 × UInt16 :=
  if coapMaxMessageId = messageId then (1, messageId) else (messageId, messageId + 1)

variable (gen : UInt16 → UInt16 × UInt16)

/-- `message_id` after `i` calls. -/
def messageIdAfter (messageId : UInt16) (i : ℕ) : UInt16 := (fun m => (gen m).2)^[i] messageId

/-- The result of the call number `i`, counted from 0. -/
def messageIdAt (messageId : UInt16) (i : ℕ) : UInt16 := (gen (messageIdAfter gen messageId i)).1

/-- Among the first `n` results, any two of 65534 consecutive ones are distinct, and no
acknowledgement is for two successive ones. -/
structure FreshIds (messageId : UInt16) (n : ℕ) : Prop where
  distinct : ∀ i j, i < j → j < n → j < i + 65534 →
    messageIdAt gen messageId i ≠ messageIdAt gen messageId j
  acked : ∀ i, i + 1 < n → ∀ ack, ¬ (messageIdAt gen messageId i = ack ∧
    messageIdAt gen messageId (i + 1) = ack)

/-- What the two generators have in common. -/
structure Counts : Prop where
  count : ∀ m, m ≠ coapMaxMessageId → gen m = (m, m + 1)
  wrap : (gen coapMaxMessageId).1 = 1
  again : (gen (gen coapMaxMessageId).2).1 = 1

theorem counts_coapMessageIdGen : Counts coapMessageIdGen where
  count _ h := if_neg (Ne.symm h)
  wrap := rfl
  again := rfl

theorem counts_cloudCoapMessageIdGen : Counts cloudCoapMessageIdGen where
  count _ h := if_neg (Ne.symm h)
  wrap := rfl
  again := rfl

/-! ## Counting -/

section Counts

variable {gen} (hgen : Counts gen) {messageId : UInt16}
include hgen

variable {i : ℕ}

theorem Counts.toNat_messageIdAfter (hi : messageId.toNat + i < 2 ^ 16) :
    (messageIdAfter gen messageId i).toNat = messageId.toNat + i := by
  induction i with
  | zero => rfl
  | succ i ih =>
    have hbefore : (messageIdAfter gen messageId i).toNat = messageId.toNat + i := ih (by omega)
    have hne : messageIdAfter gen messageId i ≠ coapMaxMessageId := by
      intro heq
      rw [heq] at hbefore
      have hmax : coapMaxMessageId.toNat = 65535 := rfl
      omega
    have hstep : messageIdAfter gen messageId (i + 1) = messageIdAfter gen messageId i + 1 := by
      unfold messageIdAfter at hne ⊢
      rw [Function.iterate_succ_apply', hgen.count _ hne]
    rw [hstep, UInt16.toNat_add, hbefore]
    exact Nat.mod_eq_of_lt (by simp; omega)

theorem Counts.toNat_messageIdAt (hi : messageId.toNat + i < 65535) :
    (messageIdAt gen messageId i).toNat = messageId.toNat + i := by
  have hafter : (messageIdAfter gen messageId i).toNat = messageId.toNat + i :=
    hgen.toNat_messageIdAfter (by omega)
  have hne : messageIdAfter gen messageId i ≠ coapMaxMessageId := by
    intro heq
    rw [heq] at hafter
    have hmax : coapMaxMessageId.toNat = 65535 := rfl
    omega
  unfold messageIdAt
  rw [hgen.count _ hne]
  exact hafter

theorem Counts.messageIdAfter_max (hi : messageId.toNat + i = 65535) :
    messageIdAfter gen messageId i = coapMaxMessageId := by
  apply UInt16.toNat_inj.mp
  rw [hgen.toNat_messageIdAfter (by omega), hi]
  rfl

theorem Counts.messageIdAt_wrap (hi : messageId.toNat + i = 65535) :
    messageIdAt gen messageId i = 1 := by
  unfold messageIdAt
  rw [hgen.messageIdAfter_max hi]
  exact hgen.wrap

theorem Counts.messageIdAt_wrap_succ (hi : messageId.toNat + i = 65535) :
    messageIdAt gen messageId (i + 1) = 1 := by
  have hmax := hgen.messageIdAfter_max hi
  unfold messageIdAt messageIdAfter at *
  rw [Function.iterate_succ_apply', hmax]
  exact hgen.again

theorem Counts.messageIdAt_ne {n j : ℕ} (hn : messageId.toNat + n ≤ 2 ^ 16) (hij : i < j)
    (hj : j < n) (hwindow : j < i + 65534) :
    messageIdAt gen messageId i ≠ messageIdAt gen messageId j := by
  intro heq
  have hi : (messageIdAt gen messageId i).toNat = messageId.toNat + i :=
    hgen.toNat_messageIdAt (by omega)
  rcases Nat.lt_or_ge (messageId.toNat + j) 65535 with hlt | hge
  · have hj' := hgen.toNat_messageIdAt hlt
    rw [heq] at hi
    omega
  · -- the result 1 at the end is as far as possible from the 1 at the beginning
    rw [heq, hgen.messageIdAt_wrap (by omega)] at hi
    have hone : (1 : UInt16).toNat = 1 := rfl
    omega

theorem Counts.freshIds_iff (messageId : UInt16) (n : ℕ) :
    FreshIds gen messageId n ↔ messageId.toNat + n ≤ 2 ^ 16 := by
  constructor
  · intro h
    by_contra hn
    have hlt := messageId.toNat_lt
    obtain ⟨i, hi⟩ : ∃ i, messageId.toNat + i = 65535 := ⟨65535 - messageId.toNat, by omega⟩
    exact h.acked i (by omega) 1 ⟨hgen.messageIdAt_wrap hi, hgen.messageIdAt_wrap_succ hi⟩
  · intro hn
    refine ⟨fun i j hij hj hwindow => hgen.messageIdAt_ne hn hij hj hwindow, ?_⟩
    rintro i hi ack ⟨hfirst, hsecond⟩
    exact hgen.messageIdAt_ne hn (Nat.lt_succ_self i) hi (by omega) (hfirst.trans hsecond.symm)

end Counts

/-! ## Freshness -/

/-- **Message ids.**  From every `message_id` on, the first `n` results of each generator are
fresh exactly when they end with the first one at the end of the range. -/
theorem messageIds_fresh_iff (messageId : UInt16) (n : ℕ) :
    (FreshIds coapMessageIdGen messageId n ↔ messageId.toNat + n ≤ 2 ^ 16) ∧
      (FreshIds cloudCoapMessageIdGen messageId n ↔ messageId.toNat + n ≤ 2 ^ 16) :=
  ⟨counts_coapMessageIdGen.freshIds_iff messageId n,
    counts_cloudCoapMessageIdGen.freshIds_iff messageId n⟩

/-- At the end of the range two successive messages have the id 1. -/
theorem messageIds_not_fresh :
    (messageIdAt coapMessageIdGen 65535 0 = 1 ∧ messageIdAt coapMessageIdGen 65535 1 = 1 ∧
        ¬ FreshIds coapMessageIdGen 65535 2) ∧
      messageIdAt cloudCoapMessageIdGen 65535 0 = 1 ∧
        messageIdAt cloudCoapMessageIdGen 65535 1 = 1 ∧
        ¬ FreshIds cloudCoapMessageIdGen 65535 2 := by
  refine ⟨⟨rfl, rfl, fun h => ?_⟩, rfl, rfl, fun h => ?_⟩
  · exact h.distinct 0 1 (by decide) (by decide) (by decide) rfl
  · exact h.distinct 0 1 (by decide) (by decide) (by decide) rfl

end Iotkit.Coap
