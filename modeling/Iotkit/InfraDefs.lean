/-
# Return codes, C strings, timers and memory

The return codes of `infra_defs.h` that the modelled functions use, the
NUL-terminated strings they are given, their millisecond timers on a clock that
wraps, and the byte memory they read through a pointer (`buf : ℕ → UInt8`, the byte
at each offset from the pointer, whether or not it lies inside the object the
pointer was taken from).
-/
import Mathlib
import Iotkit.LibC

namespace Iotkit

open List

/-! ## Return codes (`infra_defs.h`, `MQTTPacket.h`) -/

abbrev successReturn : ℤ := 0
abbrev failReturn : ℤ := -1
abbrev nullValueError : ℤ := -2
abbrev mqttPublishAckTypeError : ℤ := -13
abbrev mqttNetworkError : ℤ := -14
abbrev mqttUnsubscribeAckPacketError : ℤ := -15
abbrev mqttPublishAckPacketError : ℤ := -19
abbrev mqttPublishQosError : ℤ := -20
abbrev mqttPublishPacketError : ℤ := -21
abbrev mqttUnsubscribePacketError : ℤ := -22
abbrev mqttSubscribeAckPacketError : ℤ := -25
abbrev mqttSubscribePacketError : ℤ := -26
abbrev mqttStateError : ℤ := -27
abbrev mqttConnectAckPacketError : ℤ := -29
abbrev mqttConnectPacketError : ℤ := -30
abbrev mqttPingPacketError : ℤ := -31
abbrev mqttConnectError : ℤ := -33
abbrev mqttConnackNotAuthorizedError : ℤ := -34
abbrev mqttConnackBadUserdataError : ℤ := -35
abbrev mqttConnackServerUnavailableError : ℤ := -36
abbrev mqttConnackIdentifierRejectedError : ℤ := -37
abbrev mqttConanckUnacceptableProtocolVersionError : ℤ := -38
abbrev mqttConnackUnknownError : ℤ := -39
abbrev mqttTopicFormatError : ℤ := -41
abbrev mqttPushToListError : ℤ := -42
abbrev mqttPacketBufferTooShort : ℤ := -2
abbrev mqttPacketReadError : ℤ := -1

/-! ## C strings -/

/-- The characters of a NUL-terminated string, without the terminator. -/
structure CString where
  bytes : Bytes
  nul_notMem : 0 ∉ bytes
  deriving DecidableEq

namespace CString

theorem nul_notMem_nil : (0 : UInt8) ∉ [] := not_mem_nil
theorem nul_notMem_slashA : (0 : UInt8) ∉ [0x2F, 0x61] := by decide

def strlen (s : CString) : ℕ := s.bytes.length

/-- The characters together with the terminator, as they stand in memory. -/
def withNul (s : CString) : Bytes := s.bytes ++ [0]

@[ext] theorem ext {s t : CString} (h : s.bytes = t.bytes) : s = t := by
  cases s; cases t; congr

end CString

/-! ## Timers (`infra_timer.c`) -/

/-- `utils_time_is_expired` for a timer set to `time`, when the clock shows `now`. -/
def utilsTimeIsExpired (time now : UInt32) : Bool := (now - time).toNat < (2 ^ 32 - 1) / 2

/-- `utils_time_countdown_ms`, when the clock shows `now`. -/
def utilsTimeCountdownMs (now : UInt32) (millisecond : ℕ) : UInt32 :=
  now + UInt32.ofNat millisecond

/-! ## Memory -/

/-- `n` bytes of memory from offset `p`. -/
def memSlice (buf : Memory) (p n : ℕ) : Bytes :=
  (List.range n).map fun i => buf (p + i)

@[simp] theorem length_memSlice (buf : Memory) (p n : ℕ) :
    (memSlice buf p n).length = n := by
  simp [memSlice]

/-- The memory `buf` starts with the bytes `bs`; nothing is said of what follows. -/
def HoldsBytes (buf : Memory) (bs : Bytes) : Prop :=
  ∀ i (h : i < bs.length), buf i = bs[i]

/-- The bytes `bs` followed in memory by `rest`. -/
def memOf (bs : Bytes) (rest : Memory) : ℕ → UInt8 :=
  fun i => if h : i < bs.length then bs[i] else rest (i - bs.length)

theorem holdsBytes_memOf (bs : Bytes) (rest : Memory) :
    HoldsBytes (memOf bs rest) bs := by
  intro i h
  simp [memOf, h]

/-- Writing the bytes `bs` at offset `p`. -/
def memStore (buf : Memory) (p : ℕ) (bs : Bytes) : ℕ → UInt8 :=
  fun i => if h : p ≤ i ∧ i - p < bs.length then bs[i - p] else buf i

variable {buf : Memory} {bs : Bytes}

theorem HoldsBytes.memStore (h : HoldsBytes buf bs) (cs : Bytes) :
    HoldsBytes (memStore buf bs.length cs) (bs ++ cs) := by
  intro i hi
  rw [length_append] at hi
  by_cases hlt : i < bs.length
  · rw [Iotkit.memStore, dif_neg (by omega), h i hlt, getElem_append_left hlt]
  · rw [Iotkit.memStore, dif_pos (by omega), getElem_append_right (by omega)]

theorem HoldsBytes.memSlice_eq (hbuf : HoldsBytes buf bs) {p n : ℕ} (h : p + n ≤ bs.length) :
    memSlice buf p n = (bs.drop p).take n := by
  apply ext_getElem
  · simp; omega
  · intro i hi _
    have hi' : i < n := by simpa using hi
    simpa [memSlice] using hbuf (p + i) (by omega)

/-- The memory `buf` holds the bytes `bs` from offset `p` on. -/
def HoldsAt (buf : Memory) (p : ℕ) (bs : Bytes) : Prop :=
  ∀ i (h : i < bs.length), buf (p + i) = bs[i]

theorem HoldsBytes.holdsAt (h : HoldsBytes buf bs) : HoldsAt buf 0 bs := by
  intro i hi
  rw [Nat.zero_add]
  exact h i hi

@[simp] theorem holdsAt_nil (buf : Memory) (p : ℕ) : HoldsAt buf p [] := by
  intro i hi
  simp at hi

@[simp] theorem holdsAt_append (buf : Memory) (p : ℕ) (as bs : Bytes) :
    HoldsAt buf p (as ++ bs) ↔ HoldsAt buf p as ∧ HoldsAt buf (p + as.length) bs := by
  constructor
  · intro h
    constructor
    · intro i hi
      rw [h i (by rw [length_append]; omega), getElem_append_left hi]
    · intro i hi
      have hi' := h (as.length + i) (by rw [length_append]; omega)
      rw [getElem_append_right (by omega)] at hi'
      simpa [Nat.add_assoc] using hi'
  · rintro ⟨has, hbs⟩ i hi
    rw [length_append] at hi
    by_cases hlt : i < as.length
    · rw [has i hlt, getElem_append_left hlt]
    · have hi' := hbs (i - as.length) (by omega)
      rw [getElem_append_right (by omega), ← hi']
      congr 1
      omega

@[simp] theorem holdsAt_cons (buf : Memory) (p : ℕ) (b : UInt8) (bs : Bytes) :
    HoldsAt buf p (b :: bs) ↔ buf p = b ∧ HoldsAt buf (p + 1) bs := by
  rw [← singleton_append, holdsAt_append]
  apply and_congr_left'
  constructor
  · intro h
    exact h 0 (by simp)
  · intro h i hi
    obtain rfl : i = 0 := by simpa using hi
    exact h

theorem HoldsAt.memSlice_eq {p : ℕ} (h : HoldsAt buf p bs) : memSlice buf p bs.length = bs := by
  apply ext_getElem
  · simp
  · intro i hi hi'
    simpa [memSlice] using h i hi'

end Iotkit
