/-
# The address in a topic (`dm_message.c`, `dm_utils.c`)

`dm_utils_service_name` puts the product key and the device name into the prefix of a topic;
`dm_msg_uri_parse_pkdn` takes them out of a received topic again, as what stands between three
delimiters.  The topic comes from the cloud, the product key and the device name go to arrays of
the callers.
-/
import Iotkit.DmManager
import Iotkit.DmUri

namespace Iotkit.DmTopic

open DmUri Dm List

/-! ## The model -/

def dmUriServiceDelimiter : UInt8 := 0x2F

/-- The bytes of a string of the source. -/
def bytes (s : String) : Bytes :=
  s.toList.map fun c => UInt8.ofNat c.toNat

/-- The loop of `dm_utils_memtok`: a delimiter at the last place does not count. -/
def memtokLoop (delimiter : UInt8) (index : ℕ) : Bytes → ℕ → ℕ → Option ℕ
  | [], _, _ => none
  | c :: rest, itemIndex, count =>
    if c = delimiter ∧ rest ≠ [] then
      if count + 1 = index then some itemIndex
      else memtokLoop delimiter index rest (itemIndex + 1) (count + 1)
    else memtokLoop delimiter index rest (itemIndex + 1) count

/-- `dm_utils_memtok`: the place of the `index`-th delimiter. -/
def dmUtilsMemtok (input : Bytes) (delimiter : UInt8) (index : ℕ) : Option ℕ :=
  memtokLoop delimiter index input 0 0

/-- `HAL_Snprintf` with a format whose only places are `%s`. -/
def formatStrings : Bytes → List Bytes → Bytes
  | 0x25 :: 0x73 :: fmt, arg :: args => arg ++ formatStrings fmt args
  | c :: fmt, args => c :: formatStrings fmt args
  | [], _ => []

/-- `dm_utils_service_name`, where there is memory for the result. -/
def dmUtilsServiceName (servicePrefix name : Option Bytes)
    (productKey deviceName : CString) : Except ℤ Bytes :=
  if servicePrefix = none ∧ name = none then Except.error dmInvalidParameter
  else
    let serviceNameLen := (servicePrefix.getD []).length + (name.getD []).length +
      productKey.strlen + deviceName.strlen + 1
    let formatted := servicePrefix.elim [] fun fmt =>
      (formatStrings fmt [productKey.bytes, deviceName.bytes]).take (serviceNameLen - 1)
    Except.ok (formatted ++ name.getD [])

/-- A `memcpy` out of the topic: from where, and how many bytes. -/
structure Copy where
  src : ℕ
  len : ℕ
  deriving DecidableEq

/-- A number of bytes as `size_t`. -/
def sizeT (n : ℤ) : ℕ :=
  if 0 ≤ n then n.toNat else (n + 2 ^ 64).toNat

def between (start stop : ℕ) : Copy :=
  ⟨start + 1, sizeT ((stop : ℤ) - start - 1)⟩

/-- `dm_msg_uri_parse_pkdn`: what is copied to the product key and to the device name. -/
def dmMsgUriParsePkdn (uri : Bytes) (startDeli endDeli : ℕ) (productKey deviceName : CString) :
    Except ℤ (Copy × Copy) :=
  if uri = [] ∨ productKey.strlen ≥ iotxProductKeyLen + 1 ∨
      deviceName.strlen ≥ iotxDeviceNameLen + 1 then Except.error dmInvalidParameter
  else
    match dmUtilsMemtok uri dmUriServiceDelimiter startDeli,
        dmUtilsMemtok uri dmUriServiceDelimiter (startDeli + 1),
        dmUtilsMemtok uri dmUriServiceDelimiter endDeli with
    | some start, some slice, some stop => Except.ok (between start slice, between slice stop)
    | _, _, _ => Except.error failReturn

/-! ## Delimiters -/

variable {delimiter : UInt8} {index off count itemIndex : ℕ} {input uri a p q r rest : Bytes}
  {productKey deviceName : CString}

theorem memtokLoop_eq_some_iff :
    memtokLoop delimiter index input itemIndex count = some off ↔
      ∃ a rest, input = a ++ delimiter :: rest ∧ rest ≠ [] ∧
        a.count delimiter + count + 1 = index ∧ off = itemIndex + a.length := by
  induction input generalizing itemIndex count with
  | nil => simp [memtokLoop]
  | cons c input ih =>
    rw [memtokLoop]
    by_cases hc : c = delimiter ∧ input ≠ []
    · obtain ⟨rfl, hne⟩ := hc
      rw [if_pos ⟨rfl, hne⟩]
      by_cases hcount : count + 1 = index
      · rw [if_pos hcount]
        constructor
        · rintro ⟨⟩
          exact ⟨[], input, rfl, hne, by rw [count_nil]; omega, rfl⟩
        · rintro ⟨a, rest, hinput, -, ha, rfl⟩
          cases a with
          | nil => rfl
          | cons b a =>
            rw [cons_append, List.cons.injEq] at hinput
            obtain ⟨rfl, -⟩ := hinput
            rw [count_cons_self] at ha
            omega
      · rw [if_neg hcount, ih]
        constructor
        · rintro ⟨a, rest, rfl, hrest, ha, rfl⟩
          refine ⟨c :: a, rest, rfl, hrest, ?_, ?_⟩
          · rw [count_cons_self]
            omega
          · rw [length_cons]
            omega
        · rintro ⟨a, rest, hinput, hrest, ha, rfl⟩
          cases a with
          | nil =>
            rw [count_nil] at ha
            omega
          | cons b a =>
            rw [cons_append, List.cons.injEq] at hinput
            obtain ⟨rfl, rfl⟩ := hinput
            rw [count_cons_self] at ha
            refine ⟨a, rest, rfl, hrest, by omega, ?_⟩
            rw [length_cons]
            omega
    · rw [if_neg hc, ih]
      constructor
      · rintro ⟨a, rest, rfl, hrest, ha, rfl⟩
        have hne : c ≠ delimiter := fun h => hc ⟨h, by simp⟩
        refine ⟨c :: a, rest, rfl, hrest, ?_, ?_⟩
        · rw [count_cons_of_ne hne]
          exact ha
        · rw [length_cons]
          omega
      · rintro ⟨a, rest, hinput, hrest, ha, rfl⟩
        cases a with
        | nil =>
          rw [nil_append, List.cons.injEq] at hinput
          obtain ⟨rfl, rfl⟩ := hinput
          exact absurd ⟨rfl, hrest⟩ hc
        | cons b a =>
          rw [cons_append, List.cons.injEq] at hinput
          obtain ⟨rfl, rfl⟩ := hinput
          have hne : c ≠ delimiter := fun h => hc ⟨h, by simp⟩
          rw [count_cons_of_ne hne] at ha
          refine ⟨a, rest, rfl, hrest, ha, ?_⟩
          rw [length_cons]
          omega

theorem dmUtilsMemtok_eq_some_iff :
    dmUtilsMemtok input delimiter index = some off ↔
      ∃ a rest, input = a ++ delimiter :: rest ∧ rest ≠ [] ∧ a.count delimiter + 1 = index ∧
        off = a.length := by
  simp [dmUtilsMemtok, memtokLoop_eq_some_iff]

theorem dmUtilsMemtok_eq_none (h : input.dropLast.count delimiter < index) :
    dmUtilsMemtok input delimiter index = none := by
  rw [Option.eq_none_iff_forall_ne_some]
  intro off hoff
  obtain ⟨a, rest, rfl, hrest, ha, rfl⟩ := dmUtilsMemtok_eq_some_iff.mp hoff
  rw [dropLast_append_of_ne_nil (by simp), dropLast_cons_of_ne_nil hrest,
    count_append, count_cons_self] at h
  omega

/-! ## What is copied -/

def Copy.bytes (c : Copy) (uri : Bytes) : Bytes :=
  (uri.drop c.src).take c.len

theorem between_eq {start stop : ℕ} (h : start + 1 ≤ stop) :
    between start stop = ⟨start + 1, stop - start - 1⟩ := by
  rw [between, sizeT, if_pos (by omega)]
  congr 1
  omega

/-- A topic with an address: two parts without a delimiter between three of them, and a byte behind
the last one. -/
def HasAddress (uri a p q rest : Bytes) : Prop :=
  uri = a ++ dmUriServiceDelimiter :: (p ++ dmUriServiceDelimiter ::
    (q ++ dmUriServiceDelimiter :: rest)) ∧
    dmUriServiceDelimiter ∉ p ∧ dmUriServiceDelimiter ∉ q ∧ rest ≠ []

/-- The arrays of the callers are large enough for what is in them. -/
def Fresh (productKey deviceName : CString) : Prop :=
  productKey.strlen < iotxProductKeyLen + 1 ∧ deviceName.strlen < iotxDeviceNameLen + 1

theorem HasAddress.parse (h : HasAddress uri a p q rest) (hfresh : Fresh productKey deviceName) :
    dmMsgUriParsePkdn uri (a.count dmUriServiceDelimiter + 1)
        (a.count dmUriServiceDelimiter + 3) productKey deviceName =
      Except.ok (⟨a.length + 1, p.length⟩, ⟨a.length + 1 + p.length + 1, q.length⟩) := by
  obtain ⟨huri, hp, hq, hrest⟩ := h
  have hpcount := count_eq_zero_of_not_mem hp
  have hqcount := count_eq_zero_of_not_mem hq
  have hstart : dmUtilsMemtok uri dmUriServiceDelimiter (a.count dmUriServiceDelimiter + 1) =
      some a.length := dmUtilsMemtok_eq_some_iff.mpr ⟨a, _, huri, by simp, rfl, rfl⟩
  have hslice : dmUtilsMemtok uri dmUriServiceDelimiter (a.count dmUriServiceDelimiter + 1 + 1) =
      some (a.length + 1 + p.length) := by
    refine dmUtilsMemtok_eq_some_iff.mpr ⟨a ++ dmUriServiceDelimiter :: p,
      q ++ dmUriServiceDelimiter :: rest, ?_, by simp, ?_, ?_⟩
    · rw [huri, append_assoc, cons_append]
    · simp [hpcount]
    · simp
      omega
  have hstop : dmUtilsMemtok uri dmUriServiceDelimiter (a.count dmUriServiceDelimiter + 3) =
      some (a.length + 1 + p.length + 1 + q.length) := by
    refine dmUtilsMemtok_eq_some_iff.mpr ⟨a ++ dmUriServiceDelimiter :: (p ++
      dmUriServiceDelimiter :: q), rest, ?_, hrest, ?_, ?_⟩
    · rw [huri]
      simp
    · simp [hpcount, hqcount]
    · simp
      omega
  obtain ⟨hpk, hdn⟩ := hfresh
  rw [dmMsgUriParsePkdn, if_neg (by rw [huri]; simp; omega), hstart, hslice, hstop]
  show Except.ok (between _ _, between _ _) = _
  rw [between_eq (by omega), between_eq (by omega)]
  congr 3 <;> omega

theorem HasAddress.bytes (h : HasAddress uri a p q rest) :
    (⟨a.length + 1, p.length⟩ : Copy).bytes uri = p ∧
      (⟨a.length + 1 + p.length + 1, q.length⟩ : Copy).bytes uri = q := by
  obtain ⟨rfl, -, -, -⟩ := h
  have hfst : (a ++ dmUriServiceDelimiter :: (p ++ dmUriServiceDelimiter ::
      (q ++ dmUriServiceDelimiter :: rest))).drop (a.length + 1) =
        p ++ dmUriServiceDelimiter :: (q ++ dmUriServiceDelimiter :: rest) := by
    rw [← drop_drop, drop_left]
    rfl
  constructor
  · rw [Copy.bytes, hfst, take_left]
  · rw [Copy.bytes, add_assoc (a.length + 1), ← drop_drop, hfst, ← drop_drop,
      drop_left]
    show (q ++ dmUriServiceDelimiter :: rest).take q.length = q
    exact take_left

theorem exists_between {d : UInt8} {b : Bytes} (h : a ++ d :: r = b ++ d :: rest)
    (hcount : b.count d = a.count d + 1) : ∃ q, d ∉ q ∧ b = a ++ d :: q ∧ r = q ++ d :: rest := by
  rcases append_eq_append_iff.mp h with ⟨t, rfl, ht⟩ | ⟨t, rfl, ht⟩
  · cases t with
    | nil => simp at hcount
    | cons c q =>
      rw [cons_append, List.cons.injEq] at ht
      obtain ⟨rfl, rfl⟩ := ht
      rw [count_append, count_cons_self] at hcount
      exact ⟨q, count_eq_zero.mp (by omega), rfl, rfl⟩
  · rw [count_append] at hcount
    omega

theorem exists_hasAddress {startDeli : ℕ} {result : Copy × Copy}
    (h : dmMsgUriParsePkdn uri startDeli (startDeli + 2) productKey deviceName = Except.ok result) :
    ∃ a p q rest, HasAddress uri a p q rest ∧ a.count dmUriServiceDelimiter + 1 = startDeli := by
  rw [dmMsgUriParsePkdn] at h
  split at h
  · simp at h
  · split at h
    · next start slice stop hstart hslice hstop =>
      obtain ⟨a, r, huri, -, ha, -⟩ := dmUtilsMemtok_eq_some_iff.mp hstart
      obtain ⟨b, r', huri', -, hb, -⟩ := dmUtilsMemtok_eq_some_iff.mp hslice
      obtain ⟨c, rest, huri'', hrest, hc, -⟩ := dmUtilsMemtok_eq_some_iff.mp hstop
      obtain ⟨p, hp, rfl, rfl⟩ := exists_between (huri.symm.trans huri') (by omega)
      obtain ⟨q, hq, -, rfl⟩ := exists_between (huri'.symm.trans huri'') (by omega)
      exact ⟨a, p, q, rest, ⟨huri, hp, hq, hrest⟩, ha⟩
    · simp at h

/-! ## Topics of the cloud -/

/-- No more is copied than fits into the arrays. -/
def InBounds (result : Except ℤ (Copy × Copy)) : Prop :=
  ∀ pk dn, result = Except.ok (pk, dn) → pk.len ≤ iotxProductKeyLen ∧ dn.len ≤ iotxDeviceNameLen

/-- The parts of the address of a topic, with a number of delimiters up to it, are not too long. -/
def AddressFits (uri : Bytes) (startDeli : ℕ) : Prop :=
  ∀ a p q rest, HasAddress uri a p q rest → a.count dmUriServiceDelimiter + 1 = startDeli →
    p.length ≤ iotxProductKeyLen ∧ q.length ≤ iotxDeviceNameLen

theorem inBounds_iff {startDeli : ℕ} (hfresh : Fresh productKey deviceName) :
    InBounds (dmMsgUriParsePkdn uri startDeli (startDeli + 2) productKey deviceName) ↔
      AddressFits uri startDeli := by
  constructor
  · rintro h a p q rest haddress rfl
    exact h _ _ (haddress.parse hfresh)
  · intro h pk dn hok
    obtain ⟨a, p, q, rest, haddress, rfl⟩ := exists_hasAddress hok
    have hparse := haddress.parse hfresh
    rw [show a.count dmUriServiceDelimiter + 3 = a.count dmUriServiceDelimiter + 1 + 2 from rfl,
      hok] at hparse
    simp only [Except.ok.injEq, Prod.mk.injEq] at hparse
    obtain ⟨rfl, rfl⟩ := hparse
    exact h a p q rest haddress rfl

/-! ## Topics of the device model -/

theorem formatStrings_nil (fmt : Bytes) : formatStrings fmt [] = fmt := by
  induction fmt with
  | nil => rfl
  | cons c fmt ih =>
    rw [formatStrings, ih]
    simp

theorem formatStrings_cons {c : UInt8} (hc : c ≠ 0x25) (fmt : Bytes)
    (args : List Bytes) : formatStrings (c :: fmt) args = c :: formatStrings fmt args := by
  rw [formatStrings]
  intro _ _ _ _ h _
  exact hc h

theorem formatStrings_append {front : Bytes} (hfront : 0x25 ∉ front) (fmt : Bytes)
    (args : List Bytes) :
    formatStrings (front ++ fmt) args = front ++ formatStrings fmt args := by
  induction front with
  | nil => rfl
  | cons c front ih =>
    rw [mem_cons, not_or] at hfront
    rw [cons_append, formatStrings_cons (Ne.symm hfront.1), ih hfront.2, cons_append]

theorem formatStrings_address {front tail : Bytes} (hfront : 0x25 ∉ front)
    (p q : Bytes) :
    formatStrings (front ++ bytes "/%s/%s" ++ tail) [p, q] =
      front ++ dmUriServiceDelimiter :: (p ++ dmUriServiceDelimiter :: (q ++ tail)) := by
  rw [append_assoc, formatStrings_append hfront]
  congr 1
  show formatStrings (0x2F :: 0x25 :: 0x73 :: 0x2F :: 0x25 :: 0x73 :: tail) [p, q] = _
  rw [formatStrings_cons (by decide), formatStrings, formatStrings_cons (by decide), formatStrings,
    formatStrings_nil]
  rfl

/-- The patterns with an address: the prefixes with a service behind them, and the two topics
without one. -/
inductive Pattern
  | sys (name : Bytes)
  | extSession (name : Bytes)
  | extNtp (name : Bytes)
  | extError
  | otaDeviceInform

namespace Pattern

def servicePrefix : Pattern → String
  | sys _ => dmUriSysPrefix
  | extSession _ => dmUriExtSessionPrefix
  | extNtp _ => dmUriExtNtpPrefix
  | extError => dmUriExtErrorPrefix
  | otaDeviceInform => dmUriOtaDeviceInform

/-- The name of the service. -/
def name : Pattern → Option Bytes
  | sys name => some name
  | extSession name => some name
  | extNtp name => some name
  | extError => none
  | otaDeviceInform => none

def front : Pattern → String
  | sys _ => "/sys"
  | extSession _ => "/ext/session"
  | extNtp _ => "/ext/ntp"
  | extError => "/ext/error"
  | otaDeviceInform => "/ota/device/inform"

variable (pattern : Pattern)

def behind : Bytes :=
  pattern.name.elim [] (dmUriServiceDelimiter :: ·)

/-- The topic is the front, the product key, the device name and what stands behind it. -/
theorem serviceName_eq (productKey deviceName : CString) :
    dmUtilsServiceName (some (DmTopic.bytes pattern.servicePrefix)) pattern.name productKey
        deviceName =
      Except.ok (DmTopic.bytes pattern.front ++ dmUriServiceDelimiter :: (productKey.bytes ++
        dmUriServiceDelimiter :: (deviceName.bytes ++ pattern.behind))) := by
  obtain ⟨tail, htail, hbehind⟩ : ∃ tail, DmTopic.bytes pattern.servicePrefix =
      DmTopic.bytes pattern.front ++ DmTopic.bytes "/%s/%s" ++ tail ∧
        pattern.behind = tail ++ pattern.name.getD [] := by
    cases pattern with
    | sys name =>
      have hprefix : DmTopic.bytes dmUriSysPrefix =
          DmTopic.bytes "/sys" ++ DmTopic.bytes "/%s/%s" ++ [dmUriServiceDelimiter] := by decide
      exact ⟨_, hprefix, rfl⟩
    | extSession name =>
      have hprefix : DmTopic.bytes dmUriExtSessionPrefix =
          DmTopic.bytes "/ext/session" ++ DmTopic.bytes "/%s/%s" ++ [dmUriServiceDelimiter] := by
        decide
      exact ⟨_, hprefix, rfl⟩
    | extNtp name =>
      have hprefix : DmTopic.bytes dmUriExtNtpPrefix =
          DmTopic.bytes "/ext/ntp" ++ DmTopic.bytes "/%s/%s" ++ [dmUriServiceDelimiter] := by decide
      exact ⟨_, hprefix, rfl⟩
    | extError => exact ⟨[], by decide, rfl⟩
    | otaDeviceInform => exact ⟨[], by decide, rfl⟩
  have hfront : (0x25 : UInt8) ∉ DmTopic.bytes pattern.front := by
    cases pattern with
    | sys name => exact (by decide : (0x25 : UInt8) ∉ DmTopic.bytes "/sys")
    | extSession name => exact (by decide : (0x25 : UInt8) ∉ DmTopic.bytes "/ext/session")
    | extNtp name => exact (by decide : (0x25 : UInt8) ∉ DmTopic.bytes "/ext/ntp")
    | extError => decide
    | otaDeviceInform => decide
  rw [dmUtilsServiceName, if_neg (by simp)]
  simp only [Option.elim_some]
  rw [htail, formatStrings_address hfront, take_of_length_le, hbehind]
  · simp
  · simp only [length_append, length_cons, CString.strlen, DmTopic.bytes,
      length_map, Option.getD_some]
    have hplaces : ("/%s/%s" : String).toList.length = 6 := by decide
    omega

/-- A service stands behind the address. -/
def HasService : Prop :=
  ∃ name, pattern.name = some name ∧ name ≠ []

/-- The number of the delimiter in front of the product key, behind some of them that stand in
front of the topic. -/
def startDeli (uriPrefix : Bytes) : ℕ :=
  (uriPrefix ++ DmTopic.bytes pattern.front).count dmUriServiceDelimiter + 1

/-- From the topic of a pattern the product key and the device name are recovered. -/
def Recovers (uriPrefix : Bytes) (productKey deviceName : CString) :
    Prop :=
  ∃ uri pk dn, dmUtilsServiceName (some (DmTopic.bytes pattern.servicePrefix)) pattern.name
      productKey deviceName = Except.ok uri ∧
    dmMsgUriParsePkdn (uriPrefix ++ uri) (pattern.startDeli uriPrefix)
      (pattern.startDeli uriPrefix + 2) emptyString emptyString = Except.ok (pk, dn) ∧
    pk.bytes (uriPrefix ++ uri) = productKey.bytes ∧ dn.bytes (uriPrefix ++ uri) = deviceName.bytes

theorem fresh_emptyString : Fresh emptyString emptyString :=
  ⟨by decide, by decide⟩

theorem recovers_of_hasService {pattern : Pattern} {uriPrefix : Bytes}
    (hpk : dmUriServiceDelimiter ∉ productKey.bytes)
    (hdn : dmUriServiceDelimiter ∉ deviceName.bytes) (h : pattern.HasService) :
    pattern.Recovers uriPrefix productKey deviceName := by
  obtain ⟨name, hname, hne⟩ := h
  have hbehind : pattern.behind = dmUriServiceDelimiter :: name := by rw [behind, hname]; rfl
  have haddress : HasAddress (uriPrefix ++ (DmTopic.bytes pattern.front ++ dmUriServiceDelimiter ::
      (productKey.bytes ++ dmUriServiceDelimiter :: (deviceName.bytes ++ pattern.behind))))
      (uriPrefix ++ DmTopic.bytes pattern.front) productKey.bytes deviceName.bytes name := by
    refine ⟨?_, hpk, hdn, hne⟩
    rw [hbehind, append_assoc]
  obtain ⟨hp, hq⟩ := haddress.bytes
  exact ⟨_, _, _, serviceName_eq pattern productKey deviceName, haddress.parse fresh_emptyString,
    hp, hq⟩

/-- Without a service there is no delimiter behind the device name that counts. -/
theorem not_recovers {pattern : Pattern} {uriPrefix : Bytes}
    (hpk : dmUriServiceDelimiter ∉ productKey.bytes)
    (hdn : dmUriServiceDelimiter ∉ deviceName.bytes) (h : ¬ pattern.HasService) :
    ¬ pattern.Recovers uriPrefix productKey deviceName := by
  have hpkcount := count_eq_zero_of_not_mem hpk
  have hdncount := count_eq_zero_of_not_mem hdn
  have hbehind : pattern.behind = [] ∨ pattern.behind = [dmUriServiceDelimiter] := by
    rw [behind]
    cases hname : pattern.name with
    | none => exact .inl rfl
    | some name =>
      have hnil : name = [] := by
        by_contra hne
        exact h ⟨name, hname, hne⟩
      rw [hnil]
      exact .inr rfl
  rintro ⟨uri, pk, dn, huri, hparse, -⟩
  rw [serviceName_eq] at huri
  have hcount : (uriPrefix ++ uri).dropLast.count dmUriServiceDelimiter <
      pattern.startDeli uriPrefix + 2 := by
    rw [← Except.ok.inj huri, startDeli]
    rcases hbehind with hbehind | hbehind
    · apply Nat.lt_of_le_of_lt (List.Sublist.count_le _ (dropLast_sublist _))
      rw [hbehind]
      simp [hpkcount, hdncount]
      omega
    rw [hbehind, show uriPrefix ++ (DmTopic.bytes pattern.front ++ dmUriServiceDelimiter ::
        (productKey.bytes ++ dmUriServiceDelimiter :: (deviceName.bytes ++
        [dmUriServiceDelimiter]))) = (uriPrefix ++ (DmTopic.bytes pattern.front ++
        dmUriServiceDelimiter :: (productKey.bytes ++ dmUriServiceDelimiter ::
        deviceName.bytes))) ++ [dmUriServiceDelimiter] by simp, dropLast_concat]
    simp [hpkcount, hdncount]
    omega
  rw [dmMsgUriParsePkdn, dmUtilsMemtok_eq_none hcount] at hparse
  split at hparse
  · simp at hparse
  · split at hparse <;> simp_all

end Pattern

/-- **The address of a topic.**  It is recovered from the topics of the device model with a service
behind it, and what is copied from a topic of the cloud fits into the arrays if and only if the two
parts of its address are not too long. -/
theorem dm_msg_uri_parse_pkdn_iff (pattern : Pattern) (uriPrefix : Bytes)
    (productKey deviceName : CString) (hpk : dmUriServiceDelimiter ∉ productKey.bytes)
    (hdn : dmUriServiceDelimiter ∉ deviceName.bytes) (uri : Bytes) (startDeli : ℕ) :
    (pattern.Recovers uriPrefix productKey deviceName ↔ pattern.HasService) ∧
    (InBounds (dmMsgUriParsePkdn uri startDeli (startDeli + 2) emptyString emptyString) ↔
      AddressFits uri startDeli) := by
  refine ⟨⟨fun h => ?_, Pattern.recovers_of_hasService hpk hdn⟩,
    inBounds_iff Pattern.fresh_emptyString⟩
  by_contra hno
  exact Pattern.not_recovers hpk hdn hno h

theorem nul_notMem_p : (0 : UInt8) ∉ [0x70] := by decide
theorem nul_notMem_d : (0 : UInt8) ∉ [0x64] := by decide

/-- The topic of setting a property of the device `d` of the product `p`, as it is received. -/
theorem dm_msg_uri_parse_pkdn_property_set :
    (Pattern.sys (bytes dmUriThingServicePropertySet)).Recovers [] ⟨[0x70], nul_notMem_p⟩
      ⟨[0x64], nul_notMem_d⟩ ∧
    InBounds (dmMsgUriParsePkdn (bytes "/sys/p/d/thing/service/property/set") 2 4 emptyString
      emptyString) := by
  have h := dm_msg_uri_parse_pkdn_iff (Pattern.sys (bytes dmUriThingServicePropertySet)) []
    ⟨[0x70], nul_notMem_p⟩ ⟨[0x64], nul_notMem_d⟩ (by decide) (by decide)
    (bytes "/sys/p/d/thing/service/property/set") 2
  refine ⟨h.1.mpr ⟨_, rfl, by decide⟩, ?_⟩
  have hparse : dmMsgUriParsePkdn (bytes "/sys/p/d/thing/service/property/set") 2 4 emptyString
      emptyString = Except.ok (⟨5, 1⟩, ⟨7, 1⟩) := by decide
  rintro pk dn hok
  rw [hparse] at hok
  obtain ⟨rfl, rfl⟩ := Prod.mk.inj (Except.ok.inj hok)
  exact ⟨by decide, by decide⟩

/-- A topic with a product key of 64 letters: all of them are copied to an array of 21 bytes. -/
theorem dm_msg_uri_parse_pkdn_long :
    dmMsgUriParsePkdn (bytes "/sys/" ++ List.replicate 64 0x61 ++ bytes "/d/thing/disable") 2 4
      emptyString emptyString = Except.ok (⟨5, 64⟩, ⟨70, 1⟩) ∧
    ¬ InBounds (dmMsgUriParsePkdn (bytes "/sys/" ++ List.replicate 64 0x61 ++
      bytes "/d/thing/disable") 2 4 emptyString emptyString) := by
  have hparse : dmMsgUriParsePkdn (bytes "/sys/" ++ List.replicate 64 0x61 ++
      bytes "/d/thing/disable") 2 4 emptyString emptyString = Except.ok (⟨5, 64⟩, ⟨70, 1⟩) := by
    decide
  exact ⟨hparse, fun h => absurd (h _ _ hparse).1 (by decide)⟩

end Iotkit.DmTopic
