/-
# The device name in a WPS element (`awss_wps.c`)

A WPS element holds attributes behind its OUI: an id of two bytes, the number of data bytes in two
bytes, and the data.  `get_device_name_attr_from_wps` walks from attribute to attribute with the
numbers that it reads, in 16 bits, until it gets to the device name or to the end.
-/
import Iotkit.IeSearch

namespace Iotkit.AwssWps

open ElementRow ZeroConfig List

/-! ## The walk -/

def deviceNameId : ℕ := 0x1011

/-- `os_get_unaligned_be16` on the bytes at the front. -/
def osGetUnalignedBe16 (s : Bytes) : ℕ :=
  256 * (s.getD 0 0).toNat + (s.getD 1 0).toNat

/-- How a walk ends: at an attribute with a length of eight bits, without one, with a read behind
the element, or not within the rounds. -/
inductive AttrWalk where
  | found (attrPtr : ℕ) (len : UInt8)
  | null
  | outside
  | running
  deriving DecidableEq

/-- The length of an attribute in 16 bits, header and data. -/
def attrLen (attr : Bytes) : ℕ :=
  (osGetUnalignedBe16 (attr.drop 2) + 4) % 2 ^ 16

/-- The loop of `get_device_name_attr_from_wps` from an offset on. -/
def deviceNameAttrLoop (wpsIe : Bytes) : ℕ → ℕ → AttrWalk
  | 0, _ => AttrWalk.running
  | fuel + 1, attrPtr =>
    if attrPtr < (wpsIe.getD 1 0).toNat then
      if wpsIe.length < attrPtr + 4 then AttrWalk.outside
      else if osGetUnalignedBe16 (wpsIe.drop attrPtr) = deviceNameId then
        AttrWalk.found attrPtr (UInt8.ofNat (attrLen (wpsIe.drop attrPtr)))
      else deviceNameAttrLoop wpsIe fuel (attrPtr + attrLen (wpsIe.drop attrPtr))
    else AttrWalk.null

/-- `get_device_name_attr_from_wps`: the first attribute stands behind the header and the OUI. -/
def getDeviceNameAttrFromWps (wpsIe : Bytes) (fuel : ℕ) : AttrWalk :=
  deviceNameAttrLoop wpsIe fuel 6

/-! ## Rows of attributes -/

variable {ie r body : Bytes} {i₁ i₂ l₁ l₂ : UInt8} {fuel off k : ℕ}

/-- An attribute: its id, the number of its data bytes, and these. -/
def IsAttr (a : Bytes) : Prop :=
  ∃ i₁ i₂ l₁ l₂ body, a = i₁ :: i₂ :: l₁ :: l₂ :: body ∧ osGetUnalignedBe16 [l₁, l₂] = body.length

variable {a : Bytes}

theorem IsAttr.eq_of_append {b r s : Bytes} (ha : IsAttr a) (hb : IsAttr b)
    (h : a ++ r = b ++ s) : a = b := by
  obtain ⟨i₁, i₂, l₁, l₂, body, rfl, hl⟩ := ha
  obtain ⟨j₁, j₂, m₁, m₂, body', rfl, hm⟩ := hb
  simp only [cons_append, List.cons.injEq] at h
  obtain ⟨rfl, rfl, rfl, rfl, h⟩ := h
  rw [(append_inj h (hl.symm.trans hm)).1]

theorem IsAttr.ne_nil (ha : IsAttr a) : a ≠ [] := by
  obtain ⟨i₁, i₂, l₁, l₂, body, rfl, -⟩ := ha
  exact cons_ne_nil _ _

/-- The attributes as the elements of a row. -/
def attrFormat : Format UInt8 where
  IsElement := IsAttr
  ne_nil := IsAttr.ne_nil
  eq_of_append := IsAttr.eq_of_append

def IsDeviceName (a : Bytes) : Prop :=
  osGetUnalignedBe16 a = deviceNameId

/-- The walk ends, inside of the element, at the first device name if that is whole with whole
attributes in front of it, and reports its length; without such a device name it ends without an
attribute. -/
def WalksRight (ie : Bytes) : Prop :=
  ∃ fuel,
    (∀ es a r, ie.drop 6 = List.flatten es ++ (a ++ r) → attrFormat.Without IsDeviceName es →
      IsAttr a → IsDeviceName a → ∃ len : UInt8, len.toNat = a.length ∧
        getDeviceNameAttrFromWps ie fuel = AttrWalk.found (6 + es.flatten.length) len) ∧
    ((∀ k, ¬ attrFormat.FirstAt IsDeviceName (ie.drop 6) k) →
      getDeviceNameAttrFromWps ie fuel = AttrWalk.null)

/-- Attributes other than device names, each of them followed by the next one as far on as its
length says in 16 bits, up to the last two bytes or behind them. -/
inductive Chain : Bytes → Prop
  | short {r : Bytes} (h : r.length ≤ 2) : Chain r
  | attr {r : Bytes} (hlen : 4 ≤ r.length) (hid : ¬ IsDeviceName r)
      (hnext : Chain (r.drop (attrLen r))) : Chain r

/-! ## One round -/

theorem lt_ielen_iff (hie : IsIe ie) : off < (ie.getD 1 0).toNat ↔ 3 ≤ (ie.drop off).length := by
  obtain ⟨id, n, body, rfl, hn⟩ := hie
  rw [length_drop]
  show off < n.toNat ↔ 3 ≤ body.length + 1 + 1 - off
  omega

theorem loop_short (hie : IsIe ie) (h : (ie.drop off).length ≤ 2) :
    deviceNameAttrLoop ie (fuel + 1) off = AttrWalk.null := by
  rw [deviceNameAttrLoop, if_neg (by rw [lt_ielen_iff hie]; omega)]

theorem loop_three (hie : IsIe ie) (h : (ie.drop off).length = 3) :
    deviceNameAttrLoop ie (fuel + 1) off = AttrWalk.outside := by
  rw [deviceNameAttrLoop, if_pos ((lt_ielen_iff hie).mpr h.ge)]
  rw [length_drop] at h
  exact if_pos (by omega)

theorem loop_name (hie : IsIe ie) (h : 4 ≤ (ie.drop off).length)
    (hname : IsDeviceName (ie.drop off)) :
    deviceNameAttrLoop ie (fuel + 1) off =
      AttrWalk.found off (UInt8.ofNat (attrLen (ie.drop off))) := by
  rw [deviceNameAttrLoop, if_pos ((lt_ielen_iff hie).mpr (by omega))]
  rw [length_drop] at h
  rw [if_neg (by omega)]
  exact if_pos hname

theorem loop_next (hie : IsIe ie) (h : 4 ≤ (ie.drop off).length)
    (hname : ¬ IsDeviceName (ie.drop off)) :
    deviceNameAttrLoop ie (fuel + 1) off =
      deviceNameAttrLoop ie fuel (off + attrLen (ie.drop off)) := by
  rw [deviceNameAttrLoop, if_pos ((lt_ielen_iff hie).mpr (by omega))]
  rw [length_drop] at h
  rw [if_neg (by omega)]
  exact if_neg hname

/-! ## Whole attributes -/

theorem four_le_length (ha : IsAttr a) : 4 ≤ (a ++ r).length := by
  obtain ⟨i₁, i₂, l₁, l₂, body, rfl, -⟩ := ha
  simp only [length_append, length_cons]
  omega

theorem attrLen_append (ha : IsAttr a) (hlen : a.length < 2 ^ 16) :
    attrLen (a ++ r) = a.length := by
  obtain ⟨i₁, i₂, l₁, l₂, body, rfl, hl⟩ := ha
  show (osGetUnalignedBe16 [l₁, l₂] + 4) % 2 ^ 16 = body.length + 1 + 1 + 1 + 1
  simp only [length_cons] at hlen
  rw [hl]
  omega

theorem isDeviceName_append (ha : IsAttr a) : IsDeviceName (a ++ r) ↔ IsDeviceName a := by
  obtain ⟨i₁, i₂, l₁, l₂, body, rfl, -⟩ := ha
  rfl

theorem length_le_of_isIe (hie : IsIe ie) : ie.length ≤ 257 := by
  obtain ⟨id, n, body, rfl, hn⟩ := hie
  have hlt := n.toNat_lt
  simp only [length_cons]
  omega

theorem loop_found (hie : IsIe ie) {es : List Bytes}
    (h : ie.drop off = es.flatten ++ (a ++ r)) (hes : attrFormat.Without IsDeviceName es)
    (ha : IsAttr a) (hname : IsDeviceName a) :
    deviceNameAttrLoop ie (fuel + es.length + 1) off =
      AttrWalk.found (off + es.flatten.length) (UInt8.ofNat a.length) := by
  have hbound := length_le_of_isIe hie
  induction es generalizing off with
  | nil =>
    have hdrop : ie.drop off = a ++ r := h
    have hle : a.length ≤ ie.length - off := by
      rw [← length_drop, hdrop, length_append]
      omega
    have hname' : IsDeviceName (ie.drop off) := by
      rw [hdrop]
      exact (isDeviceName_append ha).mpr hname
    rw [loop_name hie (hdrop ▸ four_le_length ha) hname', hdrop, attrLen_append ha (by omega)]
    rfl
  | cons e es ih =>
    obtain ⟨⟨he, hno⟩, htail⟩ := Format.without_cons.mp hes
    rw [flatten_cons, append_assoc] at h
    have hle : e.length ≤ ie.length - off := by
      rw [← length_drop, h, length_append]
      omega
    have hnext : ie.drop (off + e.length) = es.flatten ++ (a ++ r) := by
      rw [← drop_drop, h, drop_left]
    have hno' : ¬ IsDeviceName (ie.drop off) := by
      rw [h]
      exact fun hc => hno ((isDeviceName_append he).mp hc)
    rw [length_cons, ← add_assoc, loop_next hie (h ▸ four_le_length he) hno', h,
      attrLen_append he (by omega), ih hnext htail, flatten_cons, length_append,
      add_assoc]

/-! ## Walks without a device name -/

theorem loop_null_of_chain (hie : IsIe ie) (hr : ie.drop off = r) (h : Chain r) :
    ∃ fuel, deviceNameAttrLoop ie fuel off = AttrWalk.null := by
  induction h generalizing off with
  | short h => exact ⟨1, loop_short hie (hr ▸ h)⟩
  | @attr r hlen hid _ ih =>
    have hnext : ie.drop (off + attrLen r) = r.drop (attrLen r) := by rw [← drop_drop, hr]
    obtain ⟨fuel, hfuel⟩ := ih hnext
    exact ⟨fuel + 1, by rw [loop_next hie (hr ▸ hlen) (hr ▸ hid), hr, hfuel]⟩

theorem chain_of_loop_null (hie : IsIe ie)
    (h : deviceNameAttrLoop ie fuel off = AttrWalk.null) : Chain (ie.drop off) := by
  induction fuel generalizing off with
  | zero => simp [deviceNameAttrLoop] at h
  | succ fuel ih =>
    rcases Nat.lt_trichotomy (ie.drop off).length 3 with hlt | heq | hgt
    · exact Chain.short (by omega)
    · rw [loop_three hie heq] at h
      simp at h
    by_cases hid : IsDeviceName (ie.drop off)
    · rw [loop_name hie hgt hid] at h
      simp at h
    · rw [loop_next hie hgt hid] at h
      apply Chain.attr hgt hid
      rw [drop_drop]
      exact ih h

theorem walksRight_of_firstAt (hie : IsIe ie)
    (hfirst : ∃ k, attrFormat.FirstAt IsDeviceName (ie.drop 6) k) : WalksRight ie := by
  refine ⟨ie.length + 1, ?_, fun hno => absurd hfirst (not_exists.mpr hno)⟩
  intro es a r h hes ha hname
  have hlen := congrArg List.length h
  have hle := hes.length_le
  have hbound := length_le_of_isIe hie
  simp only [length_drop, length_append] at hlen
  refine ⟨UInt8.ofNat a.length, ?_, ?_⟩
  · rw [UInt8.toNat_ofNat']
    omega
  · rw [show ie.length + 1 = (ie.length - es.length) + es.length + 1 by omega]
    exact loop_found hie h hes ha hname

/-- A walk that is right ends without an attribute or with one inside of the element. -/
theorem WalksRight.inside (h : WalksRight ie) :
    ∃ fuel, getDeviceNameAttrFromWps ie fuel = AttrWalk.null ∨
      ∃ off len, getDeviceNameAttrFromWps ie fuel = AttrWalk.found off len ∧
        off + len.toNat ≤ ie.length := by
  obtain ⟨fuel, hfound, hnull⟩ := h
  refine ⟨fuel, ?_⟩
  by_cases hfirst : ∃ k, attrFormat.FirstAt IsDeviceName (ie.drop 6) k
  · obtain ⟨k, es, a, r, hdrop, hes, ha, hname, -⟩ := hfirst
    obtain ⟨len, hlen, hfound⟩ := hfound es a r hdrop hes ha hname
    have hlength := congrArg List.length hdrop
    have hpos : 0 < a.length := length_pos_iff.mpr ha.ne_nil
    simp only [length_drop, length_append] at hlength
    exact Or.inr ⟨_, len, hfound, by omega⟩
  · exact .inl (hnull (not_exists.mp hfirst))

/-- **The walk of the code** is right if and only if a device name comes first in the row of whole
attributes, or the bytes are a chain of other attributes up to the end of the element. -/
theorem get_device_name_attr_from_wps_iff (ie : Bytes) (hie : IsIe ie) :
    WalksRight ie ↔
      (∃ k, attrFormat.FirstAt IsDeviceName (ie.drop 6) k) ∨ Chain (ie.drop 6) := by
  constructor
  · rintro ⟨fuel, -, hnull⟩
    by_cases hfirst : ∃ k, attrFormat.FirstAt IsDeviceName (ie.drop 6) k
    · exact .inl hfirst
    · exact .inr (chain_of_loop_null hie (hnull (not_exists.mp hfirst)))
  · rintro hcases
    by_cases hfirst : ∃ k, attrFormat.FirstAt IsDeviceName (ie.drop 6) k
    · exact walksRight_of_firstAt hie hfirst
    · obtain ⟨fuel, hfuel⟩ := loop_null_of_chain hie rfl (hcases.resolve_left hfirst)
      refine ⟨fuel, ?_, fun _ => hfuel⟩
      intro es a r h hes ha hname
      exact absurd ⟨_, es, a, r, h, hes, ha, hname, rfl⟩ hfirst

/-- A device name of one letter is found. -/
theorem get_device_name_attr_from_wps_letter :
    WalksRight [221, 9, 0, 0x50, 0xF2, 4, 0x10, 0x11, 0, 1, 65] :=
  (get_device_name_attr_from_wps_iff _ ⟨221, 9, _, rfl, rfl⟩).mpr
    (Or.inl ⟨0, [], [0x10, 0x11, 0, 1, 65], [], rfl, fun e he => absurd he (by simp),
      ⟨0x10, 0x11, 0, 1, [65], rfl, rfl⟩, rfl, rfl⟩)

theorem loop_again (fuel : ℕ) :
    getDeviceNameAttrFromWps [221, 10, 0, 0x50, 0xF2, 4, 0x10, 0x23, 0xFF, 0xFC, 0, 0] fuel =
      AttrWalk.running := by
  induction fuel with
  | zero => rfl
  | succ fuel ih => exact ih

/-- The walk does not end with the length 65532, with three bytes at the end the length of an
attribute is read behind the element, and a device name that is cut off is found. -/
theorem get_device_name_attr_from_wps_fails :
    (∀ fuel, getDeviceNameAttrFromWps
      [221, 10, 0, 0x50, 0xF2, 4, 0x10, 0x23, 0xFF, 0xFC, 0, 0] fuel = AttrWalk.running) ∧
    ¬ WalksRight [221, 10, 0, 0x50, 0xF2, 4, 0x10, 0x23, 0xFF, 0xFC, 0, 0] ∧
    (∀ fuel, getDeviceNameAttrFromWps
      [221, 7, 0, 0x50, 0xF2, 4, 0x10, 0x11, 0] (fuel + 1) = AttrWalk.outside) ∧
    ¬ WalksRight [221, 7, 0, 0x50, 0xF2, 4, 0x10, 0x11, 0] ∧
    (∀ fuel, getDeviceNameAttrFromWps
      [221, 8, 0, 0x50, 0xF2, 4, 0x10, 0x11, 0, 32] (fuel + 1) = AttrWalk.found 6 36) ∧
    ¬ WalksRight [221, 8, 0, 0x50, 0xF2, 4, 0x10, 0x11, 0, 32] := by
  refine ⟨loop_again, fun h => ?_, fun _ => rfl, fun h => ?_, fun _ => rfl, fun h => ?_⟩
  · obtain ⟨fuel, hnull | ⟨off, len, hfound, -⟩⟩ := h.inside
    · simp [loop_again] at hnull
    · simp [loop_again] at hfound
  · obtain ⟨fuel | fuel, hnull | ⟨off, len, hfound, -⟩⟩ := h.inside
    · exact AttrWalk.noConfusion hnull
    · exact AttrWalk.noConfusion hfound
    · exact AttrWalk.noConfusion hnull
    · exact AttrWalk.noConfusion hfound
  · obtain ⟨fuel | fuel, hnull | ⟨off, len, hfound, hlen⟩⟩ := h.inside
    · exact AttrWalk.noConfusion hnull
    · exact AttrWalk.noConfusion hfound
    · exact AttrWalk.noConfusion hnull
    · have hsame : AttrWalk.found 6 36 = AttrWalk.found off len := hfound
      simp only [AttrWalk.found.injEq] at hsame
      rw [← hsame.1, ← hsame.2] at hlen
      exact absurd hlen (by decide)

end Iotkit.AwssWps
