/-
# What is received, and when it is complete (`awss_smartconfig.c`)

`zconfig_get_data_len` guesses how many packages there are, `zconfig_recv_completed` looks
whether all are there, after it has filled in those of a name that is already known, and
`zconfig_get_ssid_passwd` reads the name and the password from them.  None of them leaves the
tables: the number of packages is data of 7 bits, and a name has at most 32 bytes, or 43 in
the encoding of 6 bits a byte.
-/
import Iotkit.ZconfigData

namespace Iotkit.Awss

open AccessLog Logged

/-! ## The functions -/

variable (z : ZconfigData)

def zconfigGetDataLen : Logged TableUse ℕ := do
  let score1 ← z.pkgScore true 1
  let score0 ← z.pkgScore false 1
  let tods := decide (score1 > score0)
  let len ← z.pkgLen tods 1
  let score ← z.pkgScore tods 1
  let len :=
    if len &&& payloadBitsMask ≠ 0 ∧ toUInt8 score > scoreMid then len &&& payloadBitsMask
    else if (z.data true).maxPos > (z.data false).maxPos then (z.data true).maxPos
    else (z.data false).maxPos
  pure (if len < groupNumber then groupNumber
    else if len ≥ maxPkgNums then maxPkgNums - groupNumber - 1 else len)

abbrev ssidExistMask : ℕ := 1

abbrev ssidEncodeMask : ℕ := 2 ^ 5

abbrev ssidAutoCompleteScore : ℤ := scoreMax + 1

/-- `encode_chinese`: the bits of the name, `bits` of them a byte. -/
def encodeChinese (s : Bytes) (bits : ℕ) : List ℕ :=
  let bit (k : ℕ) : ℕ := ((s.getD (k / 8) 0).toNat >>> (k % 8)) &&& 1
  (List.range ((s.length * 8 + bits - 1) / bits)).map fun i =>
    (List.range bits).foldl (fun out j => out ||| (bit (i * bits + j) <<< j)) 0

/-- The packages of a name of `n` bytes, which `byte` gives. -/
def completePackages (tods : Bool) (n : ℕ) (byte : ℕ → ℕ) :
    Logged TableUse ZconfigData := do
  let z ← z.setPkgScore tods 2 ssidAutoCompleteScore
  let z ← z.setPkgLen tods 3 (n ||| 0x200)
  let z ← z.setPkgScore tods 3 ssidAutoCompleteScore
  (List.range' 5 n).foldlM (fun z i => do
    let z ← z.setPkgLen tods i (byte (i - 5) ||| (0x100 + 0x80 * ((i - 1) % groupNumber)))
    z.setPkgScore tods i ssidAutoCompleteScore) z

/-- The part of `zconfig_recv_completed` that completes the name: the length of the name that is
gone on with, or nothing when there is no memory. -/
def ssidAutoComplete (tods : Bool) (flag ssidLen : ℕ) (memory : Bool) :
    Logged TableUse (Option ℕ × ZconfigData) :=
  if z.ssid = [] ∨ flag &&& ssidExistMask = 0 then pure (some ssidLen, z)
  else do
    let score2 ← z.pkgScore tods 2
    if ¬ score2 < ssidAutoCompleteScore then pure (some ssidLen, z)
    else do
      let score3 ← z.pkgScore tods 3
      if ¬ score3 > scoreMid ∨ z.ssidAutoCompleteDisable then pure (some ssidLen, z)
      else do
        let strlen := toUInt8 z.ssid.length
        let ssidLen := if strlen > zcMaxSsidLen - 1 then zcMaxSsidLen - 1 else strlen
        let len3 ← z.pkgLen tods 3
        if flag &&& ssidEncodeMask = 0 then
          if ssidLen ||| 0x200 ≠ len3 then
            pure (some ssidLen, { z with ssidAutoCompleteDisable := true })
          else do
            let z ← completePackages z tods ssidLen
              fun k => ((((z.ssid.getD k 0).toNat : ℤ) - 32) % 2 ^ 16).toNat
            pure (some ssidLen, z)
        else if (ssidLen * 8 + 5) / 6 ||| 0x200 ≠ len3 then
          pure (some ssidLen, { z with ssidAutoCompleteDisable := true })
        else if memory = false then pure (none, z)
        else do
          let buf := encodeChinese (z.ssid.take ssidLen) 6
          let z ← completePackages z tods buf.length fun k => buf.getD k 0
          pure (some ssidLen, z)

/-- The loop of `zconfig_recv_completed` over the scores of `n` packages from `i` on. -/
def scoresPositive (z : ZconfigData) (tods : Bool) : ℕ → ℕ → Logged TableUse Bool
  | 0, _ => pure true
  | n + 1, i => do
      let score ← z.pkgScore tods i
      if score ≤ scoreMin then pure false else scoresPositive z tods n (i + 1)

/-- The lengths of the name and the password in the head of a message. -/
def readLengths (tods : Bool) (flag : ℕ) : Logged TableUse (ℕ × ℕ) :=
  if flag &&& ssidExistMask ≠ 0 then do
    let len3 ← z.pkgLen tods 3
    let len4 ← z.pkgLen tods 4
    pure (len3 &&& payloadBitsMask, len4 &&& payloadBitsMask)
  else do
    let len3 ← z.pkgLen tods 3
    pure (0, len3 &&& payloadBitsMask)

/-- `zconfig_recv_completed` after the head of the message. -/
def packagesCompleted (tods : Bool) (len flag : ℕ) (lens : ℕ × ℕ) (memory : Bool) :
    Logged TableUse (Bool × ZconfigData) := do
  let named ← ssidAutoComplete z tods flag lens.1 memory
  match named with
  | (none, z) => pure (false, z)
  | (some ssidLen, z) =>
    if (z.data tods).maxPos < len then pure (false, z)
    else do
      let positive ← scoresPositive z tods len 1
      if positive = false then pure (false, z)
      else if flag &&& ssidExistMask ≠ 0 then pure (len = ssidLen + lens.2 + 4 + 2, z)
      else pure (len = lens.2 + 3 + 2, z)

def zconfigRecvCompleted (tods : Bool) (memory : Bool) :
    Logged TableUse (Bool × ZconfigData) := do
  let len1 ← z.pkgLen tods 1
  let len2 ← z.pkgLen tods 2
  let lens ← readLengths z tods (len2 &&& payloadBitsMask)
  if len1 &&& payloadBitsMask = 0 then pure (false, z)
  else do
    let score1 ← z.pkgScore tods 1
    if score1 ≤ scoreMin then pure (false, z)
    else packagesCompleted z tods (len1 &&& payloadBitsMask) (len2 &&& payloadBitsMask) lens memory

def zconfigChecksumV3 (data : List ℕ) : ℕ :=
  let sum := data.sum % 2 ^ 16
  let res := (sum &&& 0x3F) ||| ((sum &&& (0x3F <<< 6)) <<< 2)
  let res := if res &&& 0x00FF = 0 then res ||| 0x0001 else res
  if res &&& 0xFF00 = 0 then res ||| 0x0100 else res

/-- The loop of `zconfig_get_ssid_passwd` over the packages: the bytes in its buffer. -/
def readPackages (tods : Bool) (n : ℕ) : Logged TableUse (List ℕ) :=
  (List.range' 1 n).foldlM (fun buf i => do
    let data ← z.pkgLen tods i
    let _ ← z.pkgScore tods i
    pure (buf ++ [data &&& payloadBitsMask])) []

/-- What `zconfig_get_ssid_passwd` does to the scores of one direction when the checksum is
wrong. -/
def halveScores (tods : Bool) (n : ℕ) : Logged TableUse ZconfigData :=
  (List.range' 1 n).foldlM (fun z i => do
    let score ← z.pkgScore tods i
    let score := toUInt8 score
    z.setPkgScore tods i (if score > 0x60 then 0x60 else (score >>> 1 : ℕ))) z

/-- `zconfig_get_ssid_passwd`, and whether it returns 0. -/
def zconfigGetSsidPasswd (tods : Bool) (env : RecvEnv) :
    Logged TableUse (Bool × ZconfigData) := do
  let (completed, z) ← zconfigRecvCompleted z tods env.encodeMemory
  if completed = false ∨ env.passwdMemory = false then pure (false, z)
  else do
    let len1 ← z.pkgLen tods 1
    let packageNum := len1 &&& payloadBitsMask
    let buf ← readPackages z tods packageNum
    let crc := buf.getD (packageNum - 2) 0 * 2 ^ 8 + buf.getD (packageNum - 1) 0
    let flag := buf.getD 1 0
    -- `PASSWD_ENCRYPT_OPEN` and `PASSWD_ENCRYPT_CIPHER`
    if (flag &&& 0x06) >>> 1 ≤ 1 then pure (false, z)
    else if crc ≠ zconfigChecksumV3 (buf.take (packageNum - 2)) then do
      let z ← halveScores z false packageNum
      let z ← halveScores z true packageNum
      pure (false, z)
    else
      let z := if flag &&& ssidExistMask ≠ 0 then { z with ssid := env.ssid } else z
      if env.passwdUtf8 = false then pure (false, zeroZconfigData) else pure (true, z)

/-! ## The number of packages -/

/-- A payload is an index of the tables. -/
theorem payload_lt (len : ℕ) : len &&& payloadBitsMask < maxPkgNums := by
  rw [Nat.and_two_pow_sub_one_eq_mod]
  exact Nat.mod_lt _ (by decide)

/-- The length of the data is an index of the tables. -/
theorem zconfigGetDataLen_lt : (zconfigGetDataLen z).val < maxPkgNums := by
  have hclamp (n : ℕ) : (if n < groupNumber then groupNumber
      else if n ≥ maxPkgNums then maxPkgNums - groupNumber - 1 else n) < maxPkgNums := by
    simp only [groupNumber, maxPkgNums]
    split_ifs <;> omega
  exact hclamp _

/-- A name of 32 bytes takes 43 packages at most. -/
theorem length_encodeChinese {s : Bytes} (hs : s.length ≤ 32) :
    (encodeChinese s 6).length ≤ 43 := by
  simp only [encodeChinese, List.length_map, List.length_range]
  omega

/-! ## The indices used

What is shared here is a bound that the indices of the packages of a message meet. -/

section Within

variable {P : TableUse → Prop}

/-- The packages of a message: index 0 is left for the start frame. -/
def MessageBound (P : TableUse → Prop) : Prop := ∀ n, 1 ≤ n → n < maxPkgNums → P (.pkg n)

/-- The packages of a range inside the tables are in bounds. -/
theorem MessageBound.of_range (h : MessageBound P) {s n i : ℕ} (hs : 1 ≤ s)
    (hn : s + n ≤ maxPkgNums) (hi : i ∈ List.range' s n) : P (.pkg i) := by
  have hi' := List.mem_range'_1.mp hi
  exact h i (by omega) (by omega)

variable (h : MessageBound P) (z : ZconfigData) (tods : Bool)
include h

/-- The length is read from the first package. -/
theorem within_zconfigGetDataLen : (zconfigGetDataLen z).Within P := by
  have h1 : P (.pkg 1) := h 1 (by decide) (by decide)
  simp [zconfigGetDataLen, h1]

/-- Completing a name of 43 packages stays in bounds. -/
theorem within_completePackages {n : ℕ} (hn : n ≤ 43) (byte : ℕ → ℕ) :
    (completePackages z tods n byte).Within P := by
  have h2 : P (.pkg 2) := h 2 (by decide) (by decide)
  have h3 : P (.pkg 3) := h 3 (by decide) (by decide)
  simp only [completePackages, within_bind, ZconfigData.within_setPkgScore,
    ZconfigData.within_setPkgLen, h2, h3, true_and]
  refine within_foldlM (fun i hi z => ?_) _
  have hP : P (.pkg i) := h.of_range (by decide) (by simp only [maxPkgNums]; omega) hi
  simp [hP]

/-- Whatever the access points are called, the completion stays in bounds. -/
theorem within_ssidAutoComplete (flag ssidLen : ℕ) (memory : Bool) :
    (ssidAutoComplete z tods flag ssidLen memory).Within P := by
  have h2 : P (.pkg 2) := h 2 (by decide) (by decide)
  have h3 : P (.pkg 3) := h 3 (by decide) (by decide)
  have hstrlen : (if toUInt8 z.ssid.length > zcMaxSsidLen - 1 then zcMaxSsidLen - 1
      else toUInt8 z.ssid.length) ≤ 32 := by
    simp only [zcMaxSsidLen]
    split_ifs <;> omega
  have hname := within_completePackages h z tods (hstrlen.trans (by decide))
  have hencoded := within_completePackages h z tods
    (length_encodeChinese ((List.length_take_le _ z.ssid).trans hstrlen))
  simp only [ssidAutoComplete, within_ite, within_pure, within_bind,
    ZconfigData.within_pkgScore, ZconfigData.within_pkgLen, h2, h3, hname, hencoded, true_and,
    implies_true]

/-- The scores of a range inside the tables can be read. -/
theorem within_scoresPositive :
    ∀ (n i : ℕ), 1 ≤ i → i + n ≤ maxPkgNums → (scoresPositive z tods n i).Within P
  | 0, _, _, _ => within_pure true
  | n + 1, i, hi, hn => by
      have hP : P (.pkg i) := h i hi (by omega)
      have hrest := within_scoresPositive n (i + 1) (by omega) (by omega)
      simp only [scoresPositive, within_bind, ZconfigData.within_pkgScore, hP,
        within_ite, within_pure, hrest, implies_true, true_and]

/-- The lengths of name and password are read in bounds. -/
theorem within_readLengths (flag : ℕ) : (readLengths z tods flag).Within P := by
  have h3 : P (.pkg 3) := h 3 (by decide) (by decide)
  have h4 : P (.pkg 4) := h 4 (by decide) (by decide)
  simp [readLengths, h3, h4]

/-- The test for a complete message stays in bounds. -/
theorem within_packagesCompleted {len : ℕ} (hlen : len < maxPkgNums) (flag : ℕ)
    (lens : ℕ × ℕ) (memory : Bool) :
    (packagesCompleted z tods len flag lens memory).Within P := by
  have hscores (z' : ZconfigData) : (scoresPositive z' tods len 1).Within P :=
    within_scoresPositive h z' tods len 1 le_rfl (by omega)
  rw [packagesCompleted, within_bind]
  refine ⟨within_ssidAutoComplete h z tods flag lens.1 memory, ?_⟩
  split
  · exact within_pure _
  · simp [hscores]

/-- So does `zconfig_recv_completed`. -/
theorem within_zconfigRecvCompleted (memory : Bool) :
    (zconfigRecvCompleted z tods memory).Within P := by
  have h1 : P (.pkg 1) := h 1 (by decide) (by decide)
  have h2 : P (.pkg 2) := h 2 (by decide) (by decide)
  have hrest (len flag : ℕ) (lens : ℕ × ℕ) :=
    within_packagesCompleted h z tods (payload_lt len) flag lens memory
  simp only [zconfigRecvCompleted, within_bind, within_ite, within_pure,
    ZconfigData.within_pkgLen, ZconfigData.within_pkgScore, within_readLengths h, h1, h2, hrest,
    implies_true, true_and]

/-- The packages of a message can be read. -/
theorem within_readPackages {n : ℕ} (hn : n < maxPkgNums) :
    (readPackages z tods n).Within P := by
  refine within_foldlM (fun i hi buf => ?_) _
  have hP : P (.pkg i) := h.of_range le_rfl (by omega) hi
  simp [hP]

/-- The scores of a message can be halved. -/
theorem within_halveScores {n : ℕ} (hn : n < maxPkgNums) :
    (halveScores z tods n).Within P := by
  refine within_foldlM (fun i hi z => ?_) _
  have hP : P (.pkg i) := h.of_range le_rfl (by omega) hi
  simp [hP]

/-- Reading the name and the password stays in bounds. -/
theorem within_zconfigGetSsidPasswd (env : RecvEnv) :
    (zconfigGetSsidPasswd z tods env).Within P := by
  have h1 : P (.pkg 1) := h 1 le_rfl (by decide)
  have hread (z' : ZconfigData) (len : ℕ) := within_readPackages h z' tods (payload_lt len)
  have hhalve (z' : ZconfigData) (t : Bool) (len : ℕ) := within_halveScores h z' t (payload_lt len)
  simp only [zconfigGetSsidPasswd, within_bind, within_ite, within_pure,
    ZconfigData.within_pkgLen, within_zconfigRecvCompleted h, h1, hread, hhalve, implies_true,
    true_and]

end Within

/-! ## What is kept -/

/-- Completing a name does not break `P`. -/
structure KeptByCompletion (P : ZconfigData → Prop) : Prop where
  score : ∀ {z}, P z → ∀ t n, P (z.setPkgScore t n ssidAutoCompleteScore).val
  len : ∀ {z}, P z → ∀ t n len, P (z.setPkgLen t n len).val
  disable : ∀ {z}, P z → P { z with ssidAutoCompleteDisable := true }

section Kept

variable {P : ZconfigData → Prop} {z : ZconfigData}

section

variable (hP : KeptByCompletion P) (h : P z)
include hP h

/-- Completing a name keeps the property. -/
theorem KeptByCompletion.completePackages (tods : Bool) (n : ℕ) (byte : ℕ → ℕ) :
    (completePackages z tods n byte).Yields P := by
  rw [Awss.completePackages]
  simp only [yields_bind]
  apply yields_foldlM
  · intro i _ z' hz'
    exact hP.score (hP.len hz' ..) ..
  · exact hP.score (hP.len (hP.score h ..) ..) ..

/-- The choice of a name keeps it. -/
theorem KeptByCompletion.ssidAutoComplete (tods : Bool) (flag ssidLen : ℕ) (memory : Bool) :
    (ssidAutoComplete z tods flag ssidLen memory).Yields fun named => P named.2 := by
  have hname (n : ℕ) (byte : ℕ → ℕ) : P (Awss.completePackages z tods n byte).val :=
    hP.completePackages h tods n byte
  simp only [Awss.ssidAutoComplete, yields_ite, yields_bind, yields_pure, h,
    hname, hP.disable h, implies_true, and_self]

/-- The test for a complete message keeps it. -/
theorem KeptByCompletion.packagesCompleted (tods : Bool) (len flag : ℕ) (lens : ℕ × ℕ)
    (memory : Bool) : (packagesCompleted z tods len flag lens memory).Yields fun r => P r.2 := by
  have hnamed := hP.ssidAutoComplete h tods flag lens.1 memory
  rw [Awss.packagesCompleted, yields_bind]
  rw [Logged.Yields] at hnamed
  obtain ⟨named, hval⟩ : ∃ named,
      (Awss.ssidAutoComplete z tods flag lens.1 memory).val = named := ⟨_, rfl⟩
  rw [hval] at hnamed ⊢
  obtain ⟨len', z'⟩ := named
  have hz : P z' := hnamed
  cases len' with
  | none => exact hz
  | some ssidLen =>
    simp only [yields_ite, yields_bind, yields_pure, hz, implies_true,
      and_self]

/-- So does `zconfig_recv_completed`. -/
theorem KeptByCompletion.zconfigRecvCompleted (tods memory : Bool) :
    (zconfigRecvCompleted z tods memory).Yields fun r => P r.2 := by
  have hrest (len flag : ℕ) (lens : ℕ × ℕ) := hP.packagesCompleted h tods len flag lens memory
  simp only [Awss.zconfigRecvCompleted, yields_ite, yields_bind, yields_pure,
    h, hrest, implies_true, and_self]

end

/-- Reading a message does not break `P` either. -/
structure KeptByReading (P : ZconfigData → Prop) : Prop extends KeptByCompletion P where
  halve : ∀ {z}, P z → ∀ t n, P (z.setPkgScore t n
    (if toUInt8 (z.pkg t n).score > 0x60 then 0x60 else (toUInt8 (z.pkg t n).score >>> 1 : ℕ))).val
  ssid : ∀ {z}, P z → ∀ ssid, P { z with ssid := ssid }
  zero : P zeroZconfigData

/-- Halving the scores keeps the property. -/
theorem KeptByReading.halveScores (hP : KeptByReading P) (h : P z) (tods : Bool) (n : ℕ) :
    (halveScores z tods n).Yields P := by
  rw [Awss.halveScores]
  apply yields_foldlM
  · exact fun i _ z' hz' => hP.halve hz' tods i
  · exact h

/-- Reading the name and the password keeps it. -/
theorem KeptByReading.zconfigGetSsidPasswd (hP : KeptByReading P) (h : P z) (tods : Bool)
    (env : RecvEnv) : (zconfigGetSsidPasswd z tods env).Yields fun r => P r.2 := by
  have hcompleted := hP.zconfigRecvCompleted h tods env.encodeMemory
  rw [Awss.zconfigGetSsidPasswd, yields_bind]
  rw [Logged.Yields] at hcompleted
  obtain ⟨completed, hval⟩ : ∃ completed,
      (Awss.zconfigRecvCompleted z tods env.encodeMemory).val = completed := ⟨_, rfl⟩
  rw [hval] at hcompleted ⊢
  obtain ⟨complete, z'⟩ := completed
  have hz : P z' := hcompleted
  have hhalved (n : ℕ) : P (Awss.halveScores (Awss.halveScores z' false n).val true n).val :=
    hP.halveScores (hP.halveScores hz false n) true n
  have hnamed (c : Prop) [Decidable c] : P (if c then { z' with ssid := env.ssid } else z') := by
    split_ifs
    · exact hP.ssid hz env.ssid
    · exact hz
  simp only [yields_ite, yields_bind, yields_pure, hz, hhalved, hnamed,
    hP.zero, implies_true, and_self]

end Kept

end Iotkit.Awss
