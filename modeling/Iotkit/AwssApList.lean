/-
# The list of access points (`awss_aplist.c`)

The table into which the access points seen in beacons and probe responses are saved.  Entry 0 is
overwritten when the table is full; the others are searched for the name and the address of a new
frame.  A name is compared over one byte more than is stored.
-/
import Iotkit.GuardedRun
import Iotkit.InfraDefs
import Iotkit.LibC

namespace Iotkit.Awss

open GuardedRun LibC Function

/-! ## Constants and data -/

abbrev zcMaxSsidLen : ℕ := 32 + 1

abbrev maxAplistNum : ℕ := 100

abbrev zcMaxChannel : UInt8 := 14
abbrev zcMinChannel : UInt8 := 1
abbrev zcAuthTypeMax : UInt8 := 6
abbrev zcAuthTypeInvalid : UInt8 := 0xff
abbrev zcEncTypeAes : UInt8 := 3
abbrev zcEncTypeTkipaes : UInt8 := 4
abbrev zcEncTypeMax : UInt8 := 4
abbrev zcEncTypeInvalid : UInt8 := 0xff

/-- An address of `ETH_ALEN` bytes. -/
abbrev Mac := Fin 6 → UInt8

/-- A `struct ap_info`; `ssid` is the memory of its array of `ZC_MAX_SSID_LEN` bytes. -/
structure ApInfo where
  auth : UInt8
  channel : UInt8
  encry0 : UInt8
  encry1 : UInt8
  mac : Mac
  ssid : Memory
  rssi : ℤ

/-- The variables that `awss_save_apinfo` reads and writes; `adhaAplist` are the entries of
`adha_aplist` that are in use. -/
structure ApList where
  zconfigAplist : Fin maxAplistNum → ApInfo
  zconfigAplistNum : ℕ
  adhaAplist : List ℕ
  zcSsid : Memory
  zcBssid : Mac

/-- What `os_zalloc` and `awss_clear_aplist` leave. -/
def zeroApInfo : ApInfo := ⟨0, 0, 0, 0, fun _ => 0, fun _ => 0, 0⟩

/-- The list after `awss_init_ieee80211_aplist`, with the address of the access point that the
channel is locked to. -/
def awssInitAplist (zcBssid : Mac) : ApList :=
  ⟨fun _ => zeroApInfo, 0, [], fun _ => 0, zcBssid⟩

/-- The characters of the names `adha` and `aha`. -/
def zcAdhaSsid : Bytes := [97, 100, 104, 97]
def zcDefaultSsid : Bytes := [97, 104, 97]

namespace ApInfo

def name (ap : ApInfo) : Bytes := cstr ap.ssid zcMaxSsidLen

def key (ap : ApInfo) : Bytes × Mac := (ap.name, ap.mac)

end ApInfo

/-! ## `awss_save_apinfo` -/

/-- What is saved of an access point, after the sanity checks. -/
structure ApArgs where
  channel : UInt8
  auth : UInt8
  pairwiseCipher : UInt8
  groupCipher : UInt8
  rssi : ℤ

/-- The sanity checks of `awss_save_apinfo`. -/
def ApArgs.checked (args : ApArgs) : ApArgs where
  channel := if args.channel > zcMaxChannel ∨ args.channel < zcMinChannel then 0 else args.channel
  auth := if args.auth > zcAuthTypeMax then zcAuthTypeInvalid else args.auth
  pairwiseCipher :=
    if args.pairwiseCipher > zcEncTypeMax then zcEncTypeInvalid
    else if args.pairwiseCipher = zcEncTypeTkipaes then zcEncTypeAes
    else args.pairwiseCipher
  groupCipher := if args.groupCipher > zcEncTypeMax then zcEncTypeInvalid else args.groupCipher
  rssi := args.rssi

variable (ap : ApInfo)

def ApInfo.update (args : ApArgs) : ApInfo :=
  { ap with
    channel := if ap.channel = 0 then args.channel else ap.channel
    auth := if ap.auth = zcAuthTypeInvalid then args.auth else ap.auth
    encry0 := if ap.encry0 = zcEncTypeInvalid then args.groupCipher else ap.encry0
    encry1 := if ap.encry1 = zcEncTypeInvalid then args.pairwiseCipher else ap.encry1 }

def ApInfo.write (ssid : Bytes) (bssid : Mac) (args : ApArgs) : ApInfo :=
  { auth := args.auth, channel := args.channel, encry0 := args.groupCipher,
    encry1 := args.pairwiseCipher, mac := bssid,
    ssid := strncpy ap.ssid (ofString ssid) (zcMaxSsidLen - 1), rssi := args.rssi }

namespace ApList

/-- The comparison of an entry with a name and an address. -/
def same (s : ApList) (ssid : Bytes) (bssid : Mac) (i : Fin maxAplistNum) : Bool :=
  strncmpEq (s.zconfigAplist i).ssid (ofString ssid) zcMaxSsidLen &&
    decide ((s.zconfigAplist i).mac = bssid)

/-- The loop of `awss_save_apinfo`: the first entry from 1 on that is the same. -/
def find (s : ApList) (ssid : Bytes) (bssid : Mac) : Option (Fin maxAplistNum) :=
  (List.finRange maxAplistNum).find? fun i =>
    decide (1 ≤ i.val ∧ i.val < s.zconfigAplistNum) && s.same ssid bssid i

def saveAt (s : ApList) (i : Fin maxAplistNum) (num : ℕ) (ssid : Bytes) (bssid : Mac)
    (args : ApArgs) : ApList where
  zconfigAplist :=
    update s.zconfigAplist i ((s.zconfigAplist i).write ssid bssid args)
  zconfigAplistNum := num
  adhaAplist :=
    if (ssid = zcAdhaSsid ∨ ssid = zcDefaultSsid) ∧ s.adhaAplist.length < maxAplistNum then
      s.adhaAplist ++ [i.val]
    else s.adhaAplist
  zcSsid :=
    if s.zcBssid = bssid ∧ ssid ≠ [] then strncpy s.zcSsid (ofString ssid) (zcMaxSsidLen - 1)
    else s.zcSsid
  zcBssid := s.zcBssid

end ApList

variable (s : ApList)

/-- Entry 0 is counted from the first frame on. -/
def ApList.started : ApList :=
  { s with zconfigAplistNum := if s.zconfigAplistNum = 0 then 1 else s.zconfigAplistNum }

/-- `awss_save_apinfo` for a name and an address that are given, once entry 0 is counted. -/
def saveStarted (ssid : Bytes) (bssid : Mac) (args : ApArgs) : ApList :=
  match s.find ssid bssid with
  | some i =>
    { s with
      zconfigAplist := update s.zconfigAplist i ((s.zconfigAplist i).update args) }
  | none =>
    if h : s.zconfigAplistNum < maxAplistNum then
      s.saveAt ⟨s.zconfigAplistNum, h⟩ (s.zconfigAplistNum + 1) ssid bssid args
    else s.saveAt 0 s.zconfigAplistNum ssid bssid args

/-- `awss_save_apinfo` for a name and an address that are given. -/
def awssSaveApinfo (ssid : Bytes) (bssid : Mac) (args : ApArgs) : ApList :=
  saveStarted s.started ssid bssid args.checked

/-- A beacon or a probe response: the bytes of its SSID element, its address and what is read
from its other elements. -/
structure Beacon where
  ssidElement : Bytes
  bssid : Mac
  args : ApArgs

/-- `ieee80211_get_ssid`: an element of more than 32 bytes is refused; the name ends at the
first zero. -/
def ieee80211GetSsid (ssidElement : Bytes) : Option Bytes :=
  if ssidElement.length ≤ 32 then some (cstr (ofString ssidElement) zcMaxSsidLen) else none

/-- A frame that is saved. -/
def awssSaveBeacon (beacon : Beacon) : ApList :=
  match ieee80211GetSsid beacon.ssidElement with
  | none => s
  | some ssid => awssSaveApinfo s ssid beacon.bssid beacon.args

/-! ## Names -/

/-- A name that fits its array, without a zero in it. -/
structure IsName (ssid : Bytes) : Prop where
  zero_notMem : 0 ∉ ssid
  length_le : ssid.length ≤ zcMaxSsidLen - 1

theorem isName_of_getSsid {element ssid : Bytes}
    (h : ieee80211GetSsid element = some ssid) : IsName ssid := by
  unfold ieee80211GetSsid at h
  split at h
  · next hlen =>
      obtain rfl := Option.some.inj h
      refine ⟨zero_notMem_cstr _ _, ?_⟩
      exact (length_cstr_ofString_le element zcMaxSsidLen).trans hlen
  · cases h

theorem IsName.cstr_eq {ssid : Bytes} (h : IsName ssid) {n : ℕ} (hn : zcMaxSsidLen - 1 ≤ n) :
    cstr (ofString ssid) n = ssid :=
  cstr_ofString h.zero_notMem (h.length_le.trans hn)

@[simp] theorem ApInfo.key_update (args : ApArgs) : (ap.update args).key = ap.key :=
  rfl

/-- The last byte of an array of names stays zero. -/
theorem ApInfo.ssid_end_write (ssid : Bytes) (bssid : Mac) (args : ApArgs) :
    (ap.write ssid bssid args).ssid (zcMaxSsidLen - 1) = ap.ssid (zcMaxSsidLen - 1) :=
  strncpy_of_le ap.ssid (ofString ssid) (le_refl (zcMaxSsidLen - 1))

theorem ApInfo.key_write {ap : ApInfo} {ssid : Bytes} (bssid : Mac) (args : ApArgs)
    (hname : IsName ssid) (hend : ap.ssid (zcMaxSsidLen - 1) = 0) :
    (ap.write ssid bssid args).key = (ssid, bssid) := by
  have hcopy : (ap.write ssid bssid args).name = cstr (ofString ssid) (zcMaxSsidLen - 1) :=
    cstr_strncpy hend (Nat.lt_succ_self _)
  exact congrArg (·, bssid) (hcopy.trans (hname.cstr_eq (le_refl _)))

namespace ApList

variable {s : ApList} {ssid : Bytes} {bssid : Mac}

theorem same_iff (hname : IsName ssid) (i : Fin maxAplistNum) :
    s.same ssid bssid i = true ↔ (s.zconfigAplist i).key = (ssid, bssid) := by
  have hcstr : cstr (ofString ssid) zcMaxSsidLen = ssid := hname.cstr_eq (by decide)
  rw [same, Bool.and_eq_true, strncmpEq_iff, hcstr, decide_eq_true_iff]
  exact Prod.mk.injEq .. ▸ Iff.rfl

/-- Entry `i` is one of those in use behind the reserved one. -/
def Used (s : ApList) (i : Fin maxAplistNum) : Prop := 1 ≤ i.val ∧ i.val < s.zconfigAplistNum

theorem find_some (hname : IsName ssid) {i : Fin maxAplistNum}
    (h : s.find ssid bssid = some i) : s.Used i ∧ (s.zconfigAplist i).key = (ssid, bssid) := by
  have hi := List.find?_some h
  rw [Bool.and_eq_true, decide_eq_true_iff, same_iff hname] at hi
  exact hi

theorem find_none (hname : IsName ssid) (h : s.find ssid bssid = none) {i : Fin maxAplistNum}
    (hi : s.Used i) : (s.zconfigAplist i).key ≠ (ssid, bssid) := by
  intro hkey
  have hnot := List.find?_eq_none.mp h i (List.mem_finRange i)
  refine hnot ?_
  rw [Bool.and_eq_true, decide_eq_true_iff, same_iff hname]
  exact ⟨hi, hkey⟩

end ApList

/-! ## The invariant -/

/-- There is room for the entries, those behind the reserved one are different access points,
and every name ends within its array. -/
structure Listed (s : ApList) : Prop where
  num_le : s.zconfigAplistNum ≤ maxAplistNum
  keys_ne : ∀ i j, s.Used i → s.Used j → i ≠ j →
    (s.zconfigAplist i).key ≠ (s.zconfigAplist j).key
  ssid_end : ∀ i, (s.zconfigAplist i).ssid (zcMaxSsidLen - 1) = 0
  zcSsid_end : s.zcSsid (zcMaxSsidLen - 1) = 0

theorem listed_init (zcBssid : Mac) : Listed (awssInitAplist zcBssid) where
  num_le := Nat.zero_le _
  keys_ne _ _ hi := absurd hi.2 (Nat.not_lt_zero _)
  ssid_end _ := rfl
  zcSsid_end := rfl

theorem ApList.num_started : s.started.zconfigAplistNum = max 1 s.zconfigAplistNum := by
  by_cases hzero : s.zconfigAplistNum = 0
  · exact (if_pos hzero).trans (by rw [hzero]; rfl)
  · exact (if_neg hzero).trans (by omega)

theorem ApList.used_started (i : Fin maxAplistNum) : s.started.Used i ↔ s.Used i := by
  unfold ApList.Used
  rw [ApList.num_started]
  omega

variable {s : ApList}

theorem Listed.started (h : Listed s) : Listed s.started where
  num_le := by
    rw [ApList.num_started]
    exact max_le (by decide) h.num_le
  keys_ne i j hi hj := h.keys_ne i j ((s.used_started i).mp hi) ((s.used_started j).mp hj)
  ssid_end := h.ssid_end
  zcSsid_end := h.zcSsid_end

theorem ApList.zcSsid_end_saveAt (hend : s.zcSsid (zcMaxSsidLen - 1) = 0)
    (i : Fin maxAplistNum) (num : ℕ) (ssid : Bytes) (bssid : Mac) (args : ApArgs) :
    (s.saveAt i num ssid bssid args).zcSsid (zcMaxSsidLen - 1) = 0 := by
  unfold ApList.saveAt
  dsimp only
  split
  · rw [strncpy_of_le _ _ (le_refl _), hend]
  · exact hend

/-- An entry is written; where it is one of those in use, no other one is the same. -/
theorem Listed.saveAt (h : Listed s) {i : Fin maxAplistNum} {num : ℕ}
    {ssid : Bytes} {bssid : Mac} (args : ApArgs) (hname : IsName ssid)
    (hnum : num ≤ maxAplistNum)
    (hused : ∀ j, (s.saveAt i num ssid bssid args).Used j → j ≠ i → s.Used j)
    (hnew : (s.saveAt i num ssid bssid args).Used i →
      ∀ j, s.Used j → (s.zconfigAplist j).key ≠ (ssid, bssid)) :
    Listed (s.saveAt i num ssid bssid args) := by
  have hself : ((s.saveAt i num ssid bssid args).zconfigAplist i).key = (ssid, bssid) := by
    simp only [ApList.saveAt, update_self]
    exact ApInfo.key_write bssid args hname (h.ssid_end i)
  have hother : ∀ j, j ≠ i →
      (s.saveAt i num ssid bssid args).zconfigAplist j = s.zconfigAplist j := fun j hj =>
    update_of_ne hj _ _
  refine ⟨hnum, ?_, ?_, ApList.zcSsid_end_saveAt h.zcSsid_end ..⟩
  · intro j k hj hk hne
    by_cases hji : j = i
    · subst hji
      have hk' := hused k hk (Ne.symm hne)
      rw [hself, hother k (Ne.symm hne)]
      exact (hnew hj k hk').symm
    have hj' := hused j hj hji
    by_cases hki : k = i
    · subst hki
      rw [hself, hother j hji]
      exact hnew hk j hj'
    · rw [hother j hji, hother k hki]
      exact h.keys_ne j k hj' (hused k hk hki) hne
  · intro j
    by_cases hji : j = i
    · subst hji
      simp only [ApList.saveAt, update_self]
      rw [ApInfo.ssid_end_write, h.ssid_end]
    · rw [hother j hji]
      exact h.ssid_end j

theorem Listed.after_save (h : Listed s) {ssid : Bytes} (bssid : Mac)
    (args : ApArgs) (hname : IsName ssid) :
    Listed (saveStarted s ssid bssid args) := by
  unfold saveStarted
  cases hfind : s.find ssid bssid with
  | some i =>
    have hkey : ∀ j, (update s.zconfigAplist i
        ((s.zconfigAplist i).update args) j).key = (s.zconfigAplist j).key := by
      intro j
      by_cases hji : j = i
      · rw [hji, update_self, ApInfo.key_update]
      · rw [update_of_ne hji]
    refine ⟨h.num_le, fun j k hj hk hne => ?_, fun j => ?_, h.zcSsid_end⟩
    · rw [hkey, hkey]
      exact h.keys_ne j k hj hk hne
    · by_cases hji : j = i
      · rw [hji]
        dsimp only
        rw [update_self]
        exact h.ssid_end i
      · dsimp only
        rw [update_of_ne hji]
        exact h.ssid_end j
  | none =>
    dsimp only
    split
    · next hroom =>
        refine h.saveAt args hname hroom (fun j hj hne => ⟨hj.1, ?_⟩) fun _ j hj =>
          ApList.find_none hname hfind hj
        have hlt : j.val < s.zconfigAplistNum + 1 := hj.2
        have hval : j.val ≠ s.zconfigAplistNum := fun heq => hne (Fin.ext heq)
        omega
    · refine h.saveAt args hname h.num_le (fun j hj _ => hj) fun hzero => ?_
      exact absurd hzero.1 (by decide)

theorem Listed.save (h : Listed s) (beacon : Beacon) :
    Listed (awssSaveBeacon s beacon) := by
  unfold awssSaveBeacon
  cases hssid : ieee80211GetSsid beacon.ssidElement with
  | none => exact h
  | some ssid => exact h.started.after_save _ _ (isName_of_getSsid hssid)

/-! ## What a frame does -/

/-- `ap'` is what a frame makes of the entry `ap`: a channel that was 0 is filled in when the frame
has one from 1 to 14, and so are an auth type and the ciphers that were invalid when those of the
frame are valid, AES for TKIP-AES; what was known stays, and so do the name, the address and the
strength. -/
structure ApInfo.UpdatedTo (ap : ApInfo) (args : ApArgs) (ap' : ApInfo) : Prop where
  channel : ap'.channel =
    if ap.channel = 0 ∧ zcMinChannel ≤ args.channel ∧ args.channel ≤ zcMaxChannel then args.channel
    else ap.channel
  auth : ap'.auth =
    if ap.auth = zcAuthTypeInvalid ∧ args.auth ≤ zcAuthTypeMax then args.auth else ap.auth
  encry0 : ap'.encry0 =
    if ap.encry0 = zcEncTypeInvalid ∧ args.groupCipher ≤ zcEncTypeMax then args.groupCipher
    else ap.encry0
  encry1 : ap'.encry1 = if ap.encry1 = zcEncTypeInvalid ∧ args.pairwiseCipher ≤ zcEncTypeMax then
      if args.pairwiseCipher = zcEncTypeTkipaes then zcEncTypeAes else args.pairwiseCipher
    else ap.encry1
  ssid : ap'.ssid = ap.ssid
  mac : ap'.mac = ap.mac
  rssi : ap'.rssi = ap.rssi

/-- A value that is filled in where it is not known, out of a value that is checked. -/
theorem fill_checked {old unknown : UInt8} {c : Prop} [Decidable c] {v : UInt8} :
    (if old = unknown then (if c then unknown else v) else old)
      = if old = unknown ∧ ¬ c then v else old := by
  by_cases hold : old = unknown
  · by_cases hc : c <;> simp [hold, hc]
  · simp [hold]

theorem ApInfo.updatedTo_update (args : ApArgs) :
    ap.UpdatedTo args (ap.update args.checked) where
  channel := fill_checked.trans (by simp only [not_or, gt_iff_lt, UInt8.not_lt, and_comm])
  auth := fill_checked.trans (by simp only [gt_iff_lt, UInt8.not_lt])
  encry0 := fill_checked.trans (by simp only [gt_iff_lt, UInt8.not_lt])
  encry1 := fill_checked.trans (by simp only [gt_iff_lt, UInt8.not_lt])
  ssid := rfl
  mac := rfl
  rssi := rfl

/-- An entry of which nothing is known but its name, its address and its strength. -/
def ApInfo.unknown (ssid : Memory) (mac : Mac) (rssi : ℤ) : ApInfo :=
  ⟨zcAuthTypeInvalid, 0, zcEncTypeInvalid, zcEncTypeInvalid, mac, ssid, rssi⟩

theorem ApInfo.updatedTo_write (ap : ApInfo) (ssid : Bytes) (bssid : Mac) (args : ApArgs) :
    let ap' := ap.write ssid bssid args.checked
    (ApInfo.unknown ap'.ssid bssid args.rssi).UpdatedTo args ap' :=
  ApInfo.updatedTo_update _ args

theorem Listed.find_known (h : Listed s) {ssid : Bytes} {bssid : Mac}
    (hname : IsName ssid) {i : Fin maxAplistNum} (hi : s.Used i)
    (hkey : (s.zconfigAplist i).key = (ssid, bssid)) : s.find ssid bssid = some i := by
  cases hfind : s.find ssid bssid with
  | none => exact absurd hkey (ApList.find_none hname hfind hi)
  | some j =>
    obtain ⟨hj, hkey'⟩ := ApList.find_some hname hfind
    by_cases hij : j = i
    · rw [hij]
    · exact absurd (hkey'.trans hkey.symm) (h.keys_ne j i hj hi hij)

/-- The frame of a known access point updates its entry in place. -/
theorem Listed.save_known (h : Listed s) {beacon : Beacon} {ssid : Bytes}
    (hssid : ieee80211GetSsid beacon.ssidElement = some ssid) {i : Fin maxAplistNum}
    (hi : s.Used i) (hkey : (s.zconfigAplist i).key = (ssid, beacon.bssid)) :
    (awssSaveBeacon s beacon).zconfigAplistNum = s.zconfigAplistNum ∧
      (s.zconfigAplist i).UpdatedTo beacon.args ((awssSaveBeacon s beacon).zconfigAplist i) ∧
      ∀ j, j ≠ i → (awssSaveBeacon s beacon).zconfigAplist j = s.zconfigAplist j := by
  have hfind := h.started.find_known (isName_of_getSsid hssid) ((s.used_started i).mpr hi) hkey
  have hpos : s.zconfigAplistNum ≠ 0 := by
    have := hi.2
    omega
  unfold awssSaveBeacon
  rw [hssid]
  simp only [awssSaveApinfo, saveStarted, hfind]
  refine ⟨if_neg hpos, ?_, fun j hj => update_of_ne hj _ _⟩
  rw [update_self]
  exact ApInfo.updatedTo_update _ _

/-- The frame of a new access point goes into the next entry, or over entry 0. -/
theorem Listed.save_new (h : Listed s) {beacon : Beacon} {ssid : Bytes}
    (hssid : ieee80211GetSsid beacon.ssidElement = some ssid)
    (hnew : ∀ i, s.Used i → (s.zconfigAplist i).key ≠ (ssid, beacon.bssid)) :
    ∃ i : Fin maxAplistNum,
      (if s.zconfigAplistNum < maxAplistNum then
        i.val = max 1 s.zconfigAplistNum ∧
          (awssSaveBeacon s beacon).zconfigAplistNum = max 1 s.zconfigAplistNum + 1
      else i = 0 ∧ (awssSaveBeacon s beacon).zconfigAplistNum = s.zconfigAplistNum) ∧
      ((awssSaveBeacon s beacon).zconfigAplist i).key = (ssid, beacon.bssid) ∧
      (ApInfo.unknown ((awssSaveBeacon s beacon).zconfigAplist i).ssid beacon.bssid
        beacon.args.rssi).UpdatedTo beacon.args ((awssSaveBeacon s beacon).zconfigAplist i) ∧
      ∀ j, j ≠ i → (awssSaveBeacon s beacon).zconfigAplist j = s.zconfigAplist j := by
  have hname := isName_of_getSsid hssid
  have hfind : s.started.find ssid beacon.bssid = none := by
    cases hfind : s.started.find ssid beacon.bssid with
    | none => rfl
    | some j =>
      obtain ⟨hj, hkey⟩ := ApList.find_some hname hfind
      exact absurd hkey (hnew j ((s.used_started j).mp hj))
  have hwrite : ∀ (i : Fin maxAplistNum) (num : ℕ),
      let ap := (s.started.saveAt i num ssid beacon.bssid beacon.args.checked).zconfigAplist i
      ap.key = (ssid, beacon.bssid) ∧
        (ApInfo.unknown ap.ssid beacon.bssid beacon.args.rssi).UpdatedTo beacon.args ap := by
    intro i num
    simp only [ApList.saveAt, update_self]
    exact ⟨ApInfo.key_write _ _ hname (h.ssid_end i), ApInfo.updatedTo_write _ _ _ _⟩
  unfold awssSaveBeacon
  rw [hssid]
  simp only [awssSaveApinfo, saveStarted, hfind]
  by_cases hroom : s.zconfigAplistNum < maxAplistNum
  · have hroom' : s.started.zconfigAplistNum < maxAplistNum := by
      rw [ApList.num_started]
      exact max_lt (by decide) hroom
    rw [dif_pos hroom']
    refine ⟨⟨s.started.zconfigAplistNum, hroom'⟩, ?_, (hwrite _ _).1, (hwrite _ _).2,
      fun j hj => update_of_ne hj _ _⟩
    rw [if_pos hroom]
    exact ⟨s.num_started, congrArg (· + 1) s.num_started⟩
  · have hnum : s.started.zconfigAplistNum = s.zconfigAplistNum := by
      rw [ApList.num_started]
      exact max_eq_right (le_trans (by decide) (not_lt.mp hroom))
    rw [dif_neg (hnum ▸ hroom)]
    refine ⟨0, ?_, (hwrite _ _).1, (hwrite _ _).2, fun j hj => update_of_ne hj _ _⟩
    rw [if_neg hroom]
    exact ⟨rfl, hnum⟩

/-- **The list of access points.**  After every sequence of frames the number of entries is within
the limit, those behind the reserved one are pairwise different in name and address, and every name
ends within its array.  The next frame of a known access point fills in what was not known in its
entry and changes nothing else; one of a new one takes the next entry, or entry 0 when the table is
full, with what the frame gives, and leaves the others. -/
theorem aplist_saved (zcBssid : Mac) (beacons : List Beacon) :
    let s := beacons.foldl awssSaveBeacon (awssInitAplist zcBssid)
    s.zconfigAplistNum ≤ maxAplistNum ∧
      (∀ i j, s.Used i → s.Used j → i ≠ j →
        (s.zconfigAplist i).key ≠ (s.zconfigAplist j).key) ∧
      ((∀ i, ∃ k < zcMaxSsidLen, (s.zconfigAplist i).ssid k = 0) ∧
        ∃ k < zcMaxSsidLen, s.zcSsid k = 0) ∧
      ∀ beacon ssid, ieee80211GetSsid beacon.ssidElement = some ssid →
        let s' := awssSaveBeacon s beacon
        (∀ i, s.Used i → (s.zconfigAplist i).key = (ssid, beacon.bssid) →
          s'.zconfigAplistNum = s.zconfigAplistNum ∧
            (s.zconfigAplist i).UpdatedTo beacon.args (s'.zconfigAplist i) ∧
            ∀ j, j ≠ i → s'.zconfigAplist j = s.zconfigAplist j) ∧
        ((∀ i, s.Used i → (s.zconfigAplist i).key ≠ (ssid, beacon.bssid)) →
          ∃ i : Fin maxAplistNum,
            (if s.zconfigAplistNum < maxAplistNum then
              i.val = max 1 s.zconfigAplistNum ∧
                s'.zconfigAplistNum = max 1 s.zconfigAplistNum + 1
            else i = 0 ∧ s'.zconfigAplistNum = s.zconfigAplistNum) ∧
            (s'.zconfigAplist i).key = (ssid, beacon.bssid) ∧
            (ApInfo.unknown (s'.zconfigAplist i).ssid beacon.bssid beacon.args.rssi).UpdatedTo
              beacon.args (s'.zconfigAplist i) ∧
            ∀ j, j ≠ i → s'.zconfigAplist j = s.zconfigAplist j) := by
  intro s
  have h : Listed s := inv_foldl Listed (fun _ beacon h => h.save beacon) (listed_init zcBssid)
    beacons
  refine ⟨h.num_le, h.keys_ne, ⟨fun i => ⟨zcMaxSsidLen - 1, by decide, h.ssid_end i⟩,
    zcMaxSsidLen - 1, by decide, h.zcSsid_end⟩, ?_⟩
  intro beacon ssid hssid
  exact ⟨fun i hi hkey => h.save_known hssid hi hkey, fun hnew => h.save_new hssid hnew⟩

end Iotkit.Awss
