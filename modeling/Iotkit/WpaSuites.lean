/-
# Cipher suites of WPA and RSN elements (`zconfig_ieee80211.c`)

Behind the version of such an element stand the group suite, the number of pairwise suites and
these, the number of key management suites and these.  An element may end behind each of the
parts.  A parser walks over them with a counter of what is left, reports the cipher of the group
suite and those of the pairwise suites, and looks at the first key management suite.
-/
import Iotkit.IeSearch

namespace Iotkit.WpaSuites

open ZeroConfig List

/-! ## The parsers -/

def wpaCipherNone : UInt8 := 1
def wpaCipherWep40 : UInt8 := 2
def wpaCipherWep104 : UInt8 := 4
def wpaCipherTkip : UInt8 := 8
def wpaCipherCcmp : UInt8 := 16
def selectorLen : ℕ := 4
def wlanEidRsn : UInt8 := 48

/-- The first three bytes of the suites of WPA and of those of RSN. -/
def wpaOui : Bytes := [0x00, 0x50, 0xf2]
def rsnOui : Bytes := [0x00, 0x0f, 0xac]

def wpaOui23aType : Bytes := wpaOui ++ [1]
def rsnSuite1x : Bytes := rsnOui ++ [1]

/-- The cipher of a suite: the comparisons of both parsers, which differ in the OUI. -/
def cipherSuite (oui s : Bytes) : UInt8 :=
  if s = oui ++ [0] then wpaCipherNone
  else if s = oui ++ [1] then wpaCipherWep40
  else if s = oui ++ [2] then wpaCipherTkip
  else if s = oui ++ [4] then wpaCipherCcmp
  else if s = oui ++ [5] then wpaCipherWep104
  else 0

def getWpaCipherSuite : Bytes → UInt8 := cipherSuite wpaOui

def getWpa2CipherSuite : Bytes → UInt8 := cipherSuite rsnOui

/-- What a parser stores through its pointers; the last one may be null. -/
structure CipherInfo where
  groupCipher : UInt8
  pairwiseCipher : UInt8
  is8021x : Option UInt8

/-- Reading some bytes; no value stands for a read outside of the element. -/
def bytesAt (ie : Bytes) (pos n : ℕ) : Option Bytes :=
  if pos + n ≤ ie.length then some ((ie.drop pos).take n) else none

def osGetUnalignedLe16 (s : Bytes) : ℕ :=
  (s.getD 0 0).toNat + 256 * (s.getD 1 0).toNat

/-- The loop over the pairwise suites. -/
def orPairwise (suite : Bytes → UInt8) (ie : Bytes) :
    ℕ → ℕ → CipherInfo → Option CipherInfo
  | 0, _, info => some info
  | count + 1, pos, info => do
      let s ← bytesAt ie pos selectorLen
      orPairwise suite ie count (pos + selectorLen)
        { info with pairwiseCipher := info.pairwiseCipher ||| suite s }

/-- The part of a parser behind the pairwise suites: the first key management suite. -/
def parseKeyMgmt (type8021x ie : Bytes) (pos : ℕ) (left : ℤ) (info : CipherInfo) :
    Option (ℤ × CipherInfo) :=
  if info.is8021x.isSome ∧ 6 ≤ left then do
    let s ← bytesAt ie (pos + 2) 4
    return (0, if s = type8021x then { info with is8021x := some 1 } else info)
  else some (0, info)

variable (suite : Bytes → UInt8)

/-- The part of a parser behind the group suite. -/
def parsePairwise (type8021x ie : Bytes) (pos : ℕ) (left : ℤ) (info : CipherInfo) :
    Option (ℤ × CipherInfo) :=
  if 2 ≤ left then do
    let s ← bytesAt ie pos 2
    let count := osGetUnalignedLe16 s
    if count = 0 ∨ left - 2 < count * selectorLen then return (-1, info)
    let info ← orPairwise suite ie count (pos + 2) info
    parseKeyMgmt type8021x ie (pos + 2 + selectorLen * count) (left - 2 - selectorLen * count) info
  else if left = 1 then some (-1, info)
  else parseKeyMgmt type8021x ie pos left info

/-- The part of a parser behind the version. -/
def parseGroup (type8021x ie : Bytes) (pos : ℕ) (left : ℤ) (info : CipherInfo) :
    Option (ℤ × CipherInfo) :=
  if selectorLen ≤ left then do
    let s ← bytesAt ie pos selectorLen
    parsePairwise suite type8021x ie (pos + selectorLen) (left - selectorLen)
      { info with groupCipher := suite s }
  else if 0 < left then some (-1, info)
  else parsePairwise suite type8021x ie pos left info

/-- `cfg80211_parse_wpa_info`: the version stands behind the header, the OUI and the type. -/
def cfg80211ParseWpaInfo (wpaIe : Bytes) (wpaIeLen : ℤ) (info : CipherInfo) :
    Option (ℤ × CipherInfo) :=
  if wpaIeLen ≤ 0 then some (-1, info)
  else do
    let len ← wpaIe[1]?
    if len ≠ UInt8.ofInt (wpaIeLen - 2) then return (-1, info)
    parseGroup getWpaCipherSuite wpaOui23aType wpaIe 8 (wpaIeLen - 8) info

/-- `cfg80211_parse_wpa2_info`: the version stands behind the header. -/
def cfg80211ParseWpa2Info (rsnIe : Bytes) (rsnIeLen : ℤ) (info : CipherInfo) :
    Option (ℤ × CipherInfo) :=
  if rsnIeLen ≤ 0 then some (-1, info)
  else do
    let id ← rsnIe[0]?
    if id ≠ wlanEidRsn then return (-1, info)
    let len ← rsnIe[1]?
    if len ≠ UInt8.ofInt (rsnIeLen - 2) then return (-1, info)
    parseGroup getWpa2CipherSuite rsnSuite1x rsnIe 4 (rsnIeLen - 4) info

/-! ## What an element lists -/

/-- What stands behind the version: nothing, the group suite, or the group suite with the number
of pairwise suites, these, and the part on key management. -/
inductive Lists : Bytes → Option Bytes → List Bytes → Bytes → Prop
  | empty : Lists [] none [] []
  | group {g : Bytes} (hg : g.length = selectorLen) : Lists g (some g) [] []
  | pairwise {g : Bytes} {lo hi : UInt8} {suites : List Bytes} {rest : Bytes}
      (hg : g.length = selectorLen) (hcount : osGetUnalignedLe16 [lo, hi] = suites.length)
      (hne : suites ≠ []) (hsuites : ∀ s ∈ suites, s.length = selectorLen) :
      Lists (g ++ lo :: hi :: (suites.flatten ++ rest)) (some g) suites rest

/-- The ciphers of some suites in one byte, each as a bit. -/
def allCiphers (suites : List Bytes) : UInt8 :=
  suites.foldr (fun s c => suite s ||| c) 0

/-- What the part on key management adds: whether its first suite is that of 802.1X. -/
def withKeyMgmt (type8021x rest : Bytes) (info : CipherInfo) : CipherInfo :=
  { info with is8021x := info.is8021x.map fun v =>
      if 6 ≤ rest.length ∧ (rest.drop 2).take 4 = type8021x then 1 else v }

/-- What is to be reported of an element: the cipher of the group suite, the ciphers of all
pairwise suites, and what the part on key management adds. -/
def report (type8021x : Bytes) (g : Option Bytes) (suites : List Bytes)
    (rest : Bytes) (info : CipherInfo) : CipherInfo :=
  withKeyMgmt type8021x rest { info with
      groupCipher := (g.map suite).getD info.groupCipher
      pairwiseCipher := info.pairwiseCipher ||| allCiphers suite suites }

/-- The answer of a parser to an element with the given bytes behind the version. -/
def Parses (type8021x rest : Bytes) (info : CipherInfo) (result : Option (ℤ × CipherInfo)) :
    Prop :=
  (∀ g suites tail, Lists rest g suites tail →
      result = some (0, report suite type8021x g suites tail info)) ∧
    ((¬ ∃ g suites tail, Lists rest g suites tail) → ∃ out, result = some (-1, out))

/-! ## The parts of a parser -/

variable {suite : Bytes → UInt8} {type8021x ie g s r : Bytes} {pos n : ℕ} {left : ℤ}
  {info : CipherInfo} {suites : List Bytes}

theorem bytesAt_eq (h : ie.drop pos = s ++ r) (hs : s.length = n) (hn : 0 < n) :
    bytesAt ie pos n = some s := by
  have hlen := congrArg List.length h
  rw [length_drop, length_append] at hlen
  rw [bytesAt, if_pos (by omega), h, ← hs, take_left]

theorem drop_add_of_append (h : ie.drop pos = s ++ r) (hs : s.length = n) :
    ie.drop (pos + n) = r := by
  rw [← drop_drop, h, ← hs, drop_left]

theorem orPairwise_eq (hsuites : ∀ s ∈ suites, s.length = selectorLen)
    (h : ie.drop pos = suites.flatten ++ r) (info : CipherInfo) :
    orPairwise suite ie suites.length pos info =
      some { info with pairwiseCipher := info.pairwiseCipher ||| allCiphers suite suites } := by
  induction suites generalizing pos info with
  | nil => simp [orPairwise, allCiphers]
  | cons s suites ih =>
    have hs : s.length = selectorLen := hsuites s (by simp)
    rw [flatten_cons, append_assoc] at h
    rw [length_cons, orPairwise, bytesAt_eq h hs (by decide)]
    show orPairwise suite ie suites.length (pos + selectorLen) _ = _
    rw [ih (fun s hs => hsuites s (by simp [hs])) (drop_add_of_append h hs)]
    show some ({ info with pairwiseCipher := info.pairwiseCipher ||| suite s ||| _ } : CipherInfo) =
      some { info with pairwiseCipher := info.pairwiseCipher ||| (suite s ||| _) }
    rw [UInt8.or_assoc]
    rfl

theorem parseKeyMgmt_eq (h : ie.drop pos = r) (hleft : 6 ≤ left ↔ 6 ≤ r.length) :
    parseKeyMgmt type8021x ie pos left info = some (0, withKeyMgmt type8021x r info) := by
  obtain ⟨g, p, is8021x⟩ := info
  cases is8021x with
  | none => rfl
  | some v =>
    by_cases h6 : 6 ≤ r.length
    · have hdrop : ie.drop (pos + 2) = (r.drop 2).take 4 ++ r.drop 6 := by
        rw [← drop_drop, h, show r.drop 6 = (r.drop 2).drop 4 by rw [drop_drop],
          take_append_drop]
      rw [parseKeyMgmt, if_pos ⟨rfl, hleft.mpr h6⟩,
        bytesAt_eq hdrop (by simp only [length_take, length_drop]; omega) (by decide)]
      by_cases h8021x : (r.drop 2).take 4 = type8021x
      · simp [withKeyMgmt, h6, h8021x]
      · simp [withKeyMgmt, h8021x]
    · rw [parseKeyMgmt, if_neg fun hc => h6 (hleft.mp hc.2)]
      simp [withKeyMgmt, h6]

/-- The bytes of the listed number of suites are there. -/
theorem parsePairwise_listed {lo hi : UInt8} (hcount : osGetUnalignedLe16 [lo, hi] = suites.length)
    (hne : suites ≠ []) (hsuites : ∀ s ∈ suites, s.length = selectorLen)
    (h : ie.drop pos = lo :: hi :: (suites.flatten ++ r))
    (hleft : left = (lo :: hi :: (suites.flatten ++ r)).length) :
    parsePairwise suite type8021x ie pos left info = some (0, withKeyMgmt type8021x r
        { info with pairwiseCipher := info.pairwiseCipher ||| allCiphers suite suites }) := by
  have hflat : suites.flatten.length = suites.length * selectorLen := by
    rw [length_flatten, eq_replicate_of_mem (forall_mem_map.mpr hsuites)]
    simp
  have hpos : 0 < suites.length := length_pos_iff.mpr hne
  have hcons : ie.drop pos = [lo, hi] ++ (suites.flatten ++ r) := h
  have hrest : ie.drop (pos + 2) = suites.flatten ++ r := drop_add_of_append hcons rfl
  have hbytes : bytesAt ie pos 2 = some [lo, hi] := bytesAt_eq hcons rfl (by decide)
  simp only [length_cons, length_append, hflat] at hleft
  rw [parsePairwise, if_pos (by omega), hbytes]
  simp only [Option.bind_eq_bind, Option.bind_some, hcount]
  rw [if_neg (by omega)]
  show (orPairwise suite ie suites.length (pos + 2) info).bind _ = _
  rw [orPairwise_eq hsuites hrest]
  apply parseKeyMgmt_eq
  · rw [drop_add_of_append hrest (by rw [hflat]; simp [mul_comm])]
  · rw [mul_comm (selectorLen : ℤ)]
    push_cast at hleft
    omega

theorem exists_suites {count : ℕ} (h : count * selectorLen ≤ r.length) :
    ∃ suites rest, r = List.flatten suites ++ rest ∧ suites.length = count ∧
      ∀ s ∈ suites, s.length = selectorLen := by
  induction count generalizing r with
  | zero => exact ⟨[], r, rfl, rfl, fun s hs => absurd hs (by simp)⟩
  | succ count ih =>
    rw [Nat.succ_mul] at h
    obtain ⟨suites, rest, hr, hcount, hsuites⟩ := ih (r := r.drop selectorLen)
      (by rw [length_drop]; omega)
    refine ⟨r.take selectorLen :: suites, rest, ?_, by rw [length_cons, hcount], ?_⟩
    · rw [flatten_cons, append_assoc, ← hr, take_append_drop]
    · refine forall_mem_cons.mpr ⟨?_, hsuites⟩
      rw [length_take]
      omega

/-- What is left behind the group suite is nothing, or the listed suites, or the parser fails. -/
theorem parsePairwise_cases (suite : Bytes → UInt8) (type8021x : Bytes)
    (info : CipherInfo) (h : ie.drop pos = r) (hleft : left = r.length) :
    r = [] ∨
    (∃ lo hi suites rest, r = lo :: hi :: (List.flatten suites ++ rest) ∧
      osGetUnalignedLe16 [lo, hi] = suites.length ∧ suites ≠ [] ∧
      ∀ s ∈ suites, s.length = selectorLen) ∨
    parsePairwise suite type8021x ie pos left info = some (-1, info) := by
  rcases r with _ | ⟨lo, _ | ⟨hi, r⟩⟩
  · exact .inl rfl
  · right; right
    rw [parsePairwise, if_neg (by simp [hleft]), if_pos (by simp [hleft])]
  right
  have hbytes : bytesAt ie pos 2 = some [lo, hi] :=
    bytesAt_eq (show ie.drop pos = [lo, hi] ++ r from h) rfl (by decide)
  simp only [length_cons] at hleft
  by_cases hfits : osGetUnalignedLe16 [lo, hi] = 0 ∨
      r.length < osGetUnalignedLe16 [lo, hi] * selectorLen
  · right
    rw [parsePairwise, if_pos (by omega), hbytes]
    simp only [Option.bind_eq_bind, Option.bind_some]
    rw [if_pos (by push_cast at hleft ⊢; omega)]
    rfl
  left
  rw [not_or, Nat.not_lt] at hfits
  obtain ⟨suites, rest, hr, hcount, hsuites⟩ := exists_suites hfits.2
  refine ⟨lo, hi, suites, rest, by rw [hr], hcount.symm, ?_, hsuites⟩
  rintro rfl
  exact hfits.1 hcount.symm

theorem parses_parseGroup (hleft : left = (ie.length : ℤ) - pos) :
    Parses suite type8021x (ie.drop pos) info (parseGroup suite type8021x ie pos left info) := by
  have hlen : (ie.drop pos).length = ie.length - pos := length_drop
  constructor
  · intro g suites tail hlists
    generalize hr : ie.drop pos = r at hlists hlen
    cases hlists with
    | empty =>
      rw [length_nil] at hlen
      rw [parseGroup, if_neg (by simp only [selectorLen]; omega), if_neg (by omega),
        parsePairwise, if_neg (by omega), if_neg (by omega),
        parseKeyMgmt_eq hr (by simp only [length_nil]; omega)]
      simp [report, allCiphers]
    | group hg =>
      have hcons : ie.drop pos = r ++ [] := by rw [hr, append_nil]
      have hrest := drop_add_of_append hcons hg
      rw [hg] at hlen
      simp only [selectorLen] at hlen
      rw [parseGroup, if_pos (by simp only [selectorLen]; omega), bytesAt_eq hcons hg (by decide)]
      show parsePairwise suite type8021x ie (pos + selectorLen) (left - selectorLen) _ = _
      rw [parsePairwise, if_neg (by simp only [selectorLen]; omega),
        if_neg (by simp only [selectorLen]; omega),
        parseKeyMgmt_eq hrest (by simp only [length_nil, selectorLen]; omega)]
      simp [report, allCiphers]
    | @pairwise g lo hi suites tail hg hcount hne hsuites =>
      have hrest := drop_add_of_append hr hg
      rw [length_append, hg] at hlen
      have hpos : selectorLen ≤ ie.length - pos := by omega
      rw [parseGroup, if_pos (by simp only [selectorLen] at hpos ⊢; omega),
        bytesAt_eq hr hg (by decide)]
      show parsePairwise suite type8021x ie (pos + selectorLen) (left - selectorLen) _ = _
      rw [parsePairwise_listed hcount hne hsuites hrest
        (by simp only [selectorLen] at hpos hlen ⊢; omega)]
      rfl
  · intro hno
    by_cases h4 : selectorLen ≤ (ie.drop pos).length
    · have hsel : selectorLen = 4 := rfl
      have hsplit : ie.drop pos =
          (ie.drop pos).take selectorLen ++ (ie.drop pos).drop selectorLen :=
        (take_append_drop _ _).symm
      have hg : ((ie.drop pos).take selectorLen).length = selectorLen := by
        rw [length_take]
        omega
      have hpos : (selectorLen : ℤ) ≤ left := by omega
      rw [parseGroup, if_pos hpos, bytesAt_eq hsplit hg (by decide)]
      refine ⟨{ info with groupCipher := suite ((ie.drop pos).take selectorLen) }, ?_⟩
      have hrest : left - selectorLen = ((ie.drop pos).drop selectorLen).length := by
        rw [length_drop, hlen]
        omega
      rcases parsePairwise_cases suite type8021x
        { info with groupCipher := suite ((ie.drop pos).take selectorLen) }
        (drop_add_of_append hsplit hg) hrest with
        hnil | ⟨lo, hi, suites, rest, hr, hcount, hne, hs⟩ | h
      · rw [hnil, append_nil] at hsplit
        rw [hsplit] at hno
        exact absurd ⟨_, _, _, Lists.group hg⟩ hno
      · rw [hr] at hsplit
        rw [hsplit] at hno
        exact absurd ⟨_, _, _, Lists.pairwise hg hcount hne hs⟩ hno
      · exact h
    · have hnil : ie.drop pos ≠ [] := by
        intro hnil
        rw [hnil] at hno
        exact hno ⟨_, _, _, Lists.empty⟩
      have hpos := length_pos_iff.mpr hnil
      exact ⟨info, by rw [parseGroup, if_neg (by omega), if_pos (by omega)]⟩

/-! ## Whole elements -/

theorem ofInt_length_sub_two {id n : UInt8} {body : Bytes} (hn : n.toNat = body.length) :
    n = UInt8.ofInt (((id :: n :: body).length : ℤ) - 2) := by
  have hlen : (((id :: n :: body).length : ℤ) - 2) = (n.toNat : ℤ) := by
    simp only [length_cons]
    omega
  have hmod : ((n.toNat : ℤ) % 2 ^ 8).toNat = n.toNat := by
    have hlt := n.toNat_lt
    omega
  rw [hlen, UInt8.ofInt, hmod, UInt8.ofNat_toNat]

theorem parses_wpa (hie : IsIe ie) (info : CipherInfo) :
    Parses getWpaCipherSuite wpaOui23aType (ie.drop 8) info
      (cfg80211ParseWpaInfo ie ie.length info) := by
  obtain ⟨id, n, body, rfl, hn⟩ := hie
  rw [cfg80211ParseWpaInfo, if_neg (by simp only [length_cons]; omega)]
  show Parses _ _ _ _ (if n ≠ _ then _ else _)
  rw [if_neg fun h => h (ofInt_length_sub_two hn)]
  exact parses_parseGroup rfl

theorem parses_rsn (hie : IsIe ie) (hid : ie.getD 0 0 = wlanEidRsn) (info : CipherInfo) :
    Parses getWpa2CipherSuite rsnSuite1x (ie.drop 4) info
      (cfg80211ParseWpa2Info ie ie.length info) := by
  obtain ⟨id, n, body, rfl, hn⟩ := hie
  rw [cfg80211ParseWpa2Info, if_neg (by simp only [length_cons]; omega)]
  show Parses _ _ _ _ (if id ≠ _ then _ else if n ≠ _ then _ else _)
  rw [if_neg fun h => h hid, if_neg fun h => h (ofInt_length_sub_two hn)]
  exact parses_parseGroup rfl

theorem Parses.isSome {result : Option (ℤ × CipherInfo)}
    (h : Parses suite type8021x r info result) : result.isSome := by
  by_cases hlists : ∃ g suites tail, Lists r g suites tail
  · obtain ⟨g, suites, tail, hlists⟩ := hlists
    rw [h.1 g suites tail hlists]
    rfl
  · obtain ⟨out, hout⟩ := h.2 hlists
    rw [hout]
    rfl

/-- **Both parsers** on a whole element of any length: they read nothing outside of it, they
succeed if and only if the suites up to the last pairwise one are listed as they should be, and
then they report the group suite and the pairwise suites. -/
theorem cfg80211_parse_wpa_wpa2 (ie : Bytes) (hie : IsIe ie) (info : CipherInfo) :
    (cfg80211ParseWpaInfo ie ie.length info).isSome ∧
    (cfg80211ParseWpa2Info ie ie.length info).isSome ∧
    Parses getWpaCipherSuite wpaOui23aType (ie.drop 8) info
      (cfg80211ParseWpaInfo ie ie.length info) ∧
    (ie.getD 0 0 = wlanEidRsn → Parses getWpa2CipherSuite rsnSuite1x (ie.drop 4) info
      (cfg80211ParseWpa2Info ie ie.length info)) ∧
    (ie.getD 0 0 ≠ wlanEidRsn → cfg80211ParseWpa2Info ie ie.length info = some (-1, info)) := by
  have hother : ie.getD 0 0 ≠ wlanEidRsn →
      cfg80211ParseWpa2Info ie ie.length info = some (-1, info) := by
    intro hid
    obtain ⟨id, n, body, rfl, hn⟩ := hie
    rw [cfg80211ParseWpa2Info, if_neg (by simp only [length_cons]; omega)]
    exact if_pos hid
  refine ⟨(parses_wpa hie info).isSome, ?_, parses_wpa hie info,
    fun hid => parses_rsn hie hid info, hother⟩
  by_cases hid : ie.getD 0 0 = wlanEidRsn
  · exact (parses_rsn hie hid info).isSome
  · rw [hother hid]
    rfl

/-- An RSN element with CCMP as group suite and as pairwise suite. -/
theorem cfg80211_parse_wpa_wpa2_ccmp :
    cfg80211ParseWpa2Info [48, 12, 1, 0, 0, 15, 172, 4, 1, 0, 0, 15, 172, 4] 14 ⟨0, 0, some 0⟩ =
      some (0, ⟨16, 16, some 0⟩) := by
  have hlists : Lists ([0, 15, 172, 4] ++ 1 :: 0 :: (List.flatten [[0, 15, 172, 4]] ++ []))
      (some [0, 15, 172, 4]) [[0, 15, 172, 4]] [] :=
    Lists.pairwise rfl rfl (by simp) (by simp [selectorLen])
  have hparses := (cfg80211_parse_wpa_wpa2 [48, 12, 1, 0, 0, 15, 172, 4, 1, 0, 0, 15, 172, 4]
    ⟨48, 12, _, rfl, rfl⟩ ⟨0, 0, some 0⟩).2.2.2.1 rfl
  exact hparses.1 _ _ _ hlists

/-- An element whose list of key management suites is to have five of them and has one is
accepted. -/
theorem cfg80211_parse_wpa2_five_key_mgmt :
    IsIe [48, 18, 1, 0, 0, 15, 172, 4, 1, 0, 0, 15, 172, 4, 5, 0, 0, 15, 172, 2] ∧
    Lists ([48, 18, 1, 0, 0, 15, 172, 4, 1, 0, 0, 15, 172, 4, 5, 0, 0, 15, 172, 2].drop 4)
      (some [0, 15, 172, 4]) [[0, 15, 172, 4]] ([5, 0] ++ [0, 15, 172, 2]) ∧
    ([0, 15, 172, 2] : Bytes).length < osGetUnalignedLe16 [5, 0] * selectorLen ∧
    cfg80211ParseWpa2Info [48, 18, 1, 0, 0, 15, 172, 4, 1, 0, 0, 15, 172, 4, 5, 0, 0, 15, 172, 2] 20
      ⟨0, 0, some 0⟩ = some (0, ⟨16, 16, some 0⟩) := by
  refine ⟨⟨48, 18, _, rfl, rfl⟩, ?_, by decide, rfl⟩
  have hlists : Lists ([0, 15, 172, 4] ++ 1 :: 0 :: (List.flatten [[0, 15, 172, 4]] ++
      ([5, 0] ++ [0, 15, 172, 2]))) (some [0, 15, 172, 4]) [[0, 15, 172, 4]]
      ([5, 0] ++ [0, 15, 172, 2]) :=
    Lists.pairwise rfl rfl (by simp) (by simp [selectorLen])
  exact hlists

end Iotkit.WpaSuites
