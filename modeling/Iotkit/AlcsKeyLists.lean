/-
# The key lists of ALCS along every run

The lists stay counted and consistent, and `is_legal_key` decides by them, as long as four
things do not happen: an access key is taken out of the client's list, which does not count
it; a key of low priority is purged for a new one that then cannot be allocated; a key that
was added twice is removed; and a group key is left without a device key, where
`is_legal_key` gives up before it looks at the groups.
-/
import Iotkit.AlcsKeys
import Iotkit.GuardedRun

namespace Iotkit.Alcs

open List
open GuardedRun (AllSteps)
open Coap (coapSuccess coapErrorMalloc coapErrorInvalidLength)

/-- The operations on the key lists; `malloc` says whether memory can be allocated. -/
inductive KeyOp
  | addSvrKey (malloc : Bool) (keyPrefix secret : CString) (priority : ServerKeyPriority)
  | removeSvrKey (keyPrefix : CString)
  | addSvrGroup (malloc : Bool) (groupid keyPrefix secret : CString)
  | setRevocation (seqlist : Option CString)
  | addClientKey (malloc : Bool) (accesskey accesstoken : CString) (deviceName : Option CString)
  | removeClientKey (key : CString)

/-- One operation: its return value and the lists afterwards. -/
def keyCall (lst : AuthList) : KeyOp → ℤ × AuthList
  | .addSvrKey malloc keyPrefix secret priority =>
    Alcs.addSvrKey malloc lst keyPrefix secret priority
  | .removeSvrKey keyPrefix => (coapSuccess, alcsRemoveSvrKey lst keyPrefix)
  | .addSvrGroup malloc groupid keyPrefix secret =>
    alcsAddSvrGroup malloc lst groupid keyPrefix secret
  | .setRevocation seqlist => (coapSuccess, alcsSetRevocation lst seqlist)
  | .addClientKey malloc accesskey accesstoken deviceName =>
    alcsAddClientKey malloc lst accesskey accesstoken deviceName
  | .removeClientKey key => (coapSuccess, alcsRemoveClientKey lst key)

def keyStep (lst : AuthList) (op : KeyOp) : AuthList := (keyCall lst op).2

def keyRun (lst : AuthList) (ops : List KeyOp) : AuthList := ops.foldl keyStep lst

/-- Group keys of full length, which alone can be looked up. -/
def hasFullGroupKey (lst : AuthList) : Prop :=
  ∃ gnode ∈ lst.lstSvrGroup, gnode.keyInfo.keyprefix.chars.length = keyprefixLen

/-- The steps that keep the lists as they should be. -/
def Careful (lst : AuthList) : KeyOp → Prop
  | .addSvrKey malloc keyPrefix _ priority =>
    malloc = true ∨ lst.svrCount.toNat ≥ keyMaxcount ∨ keyPrefix.chars.length ≠ keyprefixLen ∨
      ∀ node ∈ lst.lstSvr, priority.value ≤ node.priority.value
  | .removeSvrKey keyPrefix =>
    (lst.lstSvr.countP (SvrKeyInfo.hasPrefix keyPrefix) ≤ 1 ∨
        ∃ gnode ∈ lst.lstSvrGroup, gnode.keyInfo.keyprefix.chars = keyPrefix.chars) ∧
      (hasFullGroupKey lst → lst.lstSvr.length ≥ 2 ∨
        ∀ node ∈ lst.lstSvr, node.keyprefix.chars ≠ keyPrefix.chars)
  | .addSvrGroup malloc _ keyPrefix _ =>
    malloc = false ∨ lst.svrGroupCount ≥ keyMaxcount ∨ keyPrefix.chars.length < keyprefixLen ∨
      lst.lstSvr ≠ []
  | .setRevocation _ => True
  | .addClientKey _ _ _ _ => True
  | .removeClientKey key => ∀ node ∈ lst.lstCtl, ¬ matchKey node.accessKey key = true

/-- What holds of the lists along a careful run. -/
structure KeyInv (lst : AuthList) : Prop where
  svr_count : lst.svrCount.toNat = lst.lstSvr.length
  svr_le : lst.lstSvr.length ≤ keyMaxcount
  group_count : lst.svrGroupCount = lst.lstSvrGroup.length
  group_le : lst.lstSvrGroup.length ≤ keyMaxcount
  ctl_count : lst.ctlCount.toNat = lst.lstCtl.length
  ctl_le : lst.lstCtl.length ≤ keyMaxcount
  same_priority : ∀ a ∈ lst.lstSvr, ∀ b ∈ lst.lstSvr, a.priority = b.priority
  svr_of_group : hasFullGroupKey lst → lst.lstSvr ≠ []

theorem keyInv_init : KeyInv authListInit := by
  refine ⟨rfl, Nat.zero_le _, rfl, Nat.zero_le _, rfl, Nat.zero_le _, ?_, ?_⟩
  · rintro a ⟨⟩
  · rintro ⟨gnode, ⟨⟩, -⟩

/-! ## Counters -/

theorem toNat_add_one {count : UInt8} {n : ℕ} (h : count.toNat = n) (hn : n < keyMaxcount) :
    (count + 1).toNat = n + 1 := by
  rw [UInt8.toNat_add, h]
  exact Nat.mod_eq_of_lt (by simp [keyMaxcount] at hn ⊢; omega)

theorem toNat_sub_ofNat {count : UInt8} {n k : ℕ} (h : count.toNat = n) (hk : k ≤ n) :
    (count - UInt8.ofNat k).toNat = n - k := by
  have hlt := count.toNat_lt
  have hof : (UInt8.ofNat k).toNat = k := by
    rw [UInt8.toNat_ofNat']
    exact Nat.mod_eq_of_lt (by omega)
  rw [UInt8.toNat_sub_of_le _ _ (by rw [UInt8.le_iff_toNat_le, hof]; omega), hof, h]

/-! ## Keys of low priority -/

section LowPriority

variable {lst : AuthList} {priority : ServerKeyPriority}

theorem countP_low_add_length (lst : AuthList) (priority : ServerKeyPriority) :
    (alcsRemoveLowPriorityKey lst priority).lstSvr.length +
      lst.lstSvr.countP (fun node => decide (node.priority.value < priority.value)) =
      lst.lstSvr.length := by
  rw [countP_eq_length_filter, Nat.add_comm]
  exact (length_eq_length_filter_add _).symm

theorem svrCount_alcsRemoveLowPriorityKey (h : lst.svrCount.toNat = lst.lstSvr.length) :
    (alcsRemoveLowPriorityKey lst priority).svrCount.toNat =
      (alcsRemoveLowPriorityKey lst priority).lstSvr.length := by
  have hlen := countP_low_add_length lst priority
  have hsub := toNat_sub_ofNat h (k := lst.lstSvr.countP fun node =>
    decide (node.priority.value < priority.value)) (by omega)
  exact hsub.trans (by omega)

theorem alcsRemoveLowPriorityKey_eq_self
    (hlow : ∀ node ∈ lst.lstSvr, priority.value ≤ node.priority.value) :
    alcsRemoveLowPriorityKey lst priority = lst := by
  have hlist : (lst.lstSvr.filter fun node => !decide (node.priority.value < priority.value)) =
      lst.lstSvr := by
    apply filter_eq_self.mpr
    intro node hnode
    simpa using hlow node hnode
  have hzero : lst.lstSvr.countP (fun node => decide (node.priority.value < priority.value)) = 0 := by
    apply countP_eq_zero.mpr
    intro node hnode
    simpa using hlow node hnode
  unfold alcsRemoveLowPriorityKey
  simp only [hlist, hzero]
  simp

theorem priority_eq_of_mem {node : SvrKeyInfo}
    (hmem : node ∈ (alcsRemoveLowPriorityKey lst priority).lstSvr)
    (hhigh : ¬ priority.value < node.priority.value) : node.priority = priority := by
  have hlow : priority.value ≤ node.priority.value := by
    have hkept := (mem_filter.mp hmem).2
    simpa using hkept
  cases hnode : node.priority <;> cases hpri : priority <;> simp_all [ServerKeyPriority.value]

end LowPriority

/-! ## One operation -/

/-- What `add_svr_key` can do: refuse, stop after the purge, or add the key. -/
theorem addSvrKey_cases (malloc : Bool) (lst : AuthList) (keyPrefix secret : CString)
    (priority : ServerKeyPriority) :
    (Alcs.addSvrKey malloc lst keyPrefix secret priority = (coapErrorInvalidLength, lst)) ∨
      (lst.svrCount.toNat < keyMaxcount ∧ keyPrefix.chars.length = keyprefixLen ∧
        ((∃ node ∈ lst.lstSvr, priority.value < node.priority.value ∧
            Alcs.addSvrKey malloc lst keyPrefix secret priority =
              (coapErrorUnsupported, alcsRemoveLowPriorityKey lst priority)) ∨
          (malloc = false ∧ Alcs.addSvrKey malloc lst keyPrefix secret priority =
              (coapErrorMalloc, alcsRemoveLowPriorityKey lst priority)) ∨
          ((∀ node ∈ (alcsRemoveLowPriorityKey lst priority).lstSvr,
              ¬ priority.value < node.priority.value) ∧
            Alcs.addSvrKey malloc lst keyPrefix secret priority =
              (coapSuccess, { alcsRemoveLowPriorityKey lst priority with
                lstSvr := (alcsRemoveLowPriorityKey lst priority).lstSvr ++
                  [⟨keyPrefix, secret, priority⟩]
                svrCount := (alcsRemoveLowPriorityKey lst priority).svrCount + 1 })))) := by
  unfold Alcs.addSvrKey
  by_cases hrefuse : lst.svrCount.toNat ≥ keyMaxcount ∨ keyPrefix.chars.length ≠ keyprefixLen
  · exact .inl (if_pos hrefuse)
  rw [if_neg hrefuse]
  obtain ⟨hroom, hlen⟩ := not_or.mp hrefuse
  refine .inr ⟨not_le.mp hroom, not_not.mp hlen, ?_⟩
  simp only
  by_cases hhigh : ((alcsRemoveLowPriorityKey lst priority).lstSvr.any fun node =>
      decide (priority.value < node.priority.value)) = true
  · obtain ⟨node, hnode, hlt⟩ := any_eq_true.mp hhigh
    exact Or.inl ⟨node, (mem_filter.mp hnode).1, by simpa using hlt, if_pos hhigh⟩
  rw [if_neg hhigh]
  cases hmalloc : malloc with
  | false => exact .inr (.inl ⟨rfl, rfl⟩)
  | true =>
    refine .inr (.inr ⟨?_, rfl⟩)
    intro node hnode hlt
    exact hhigh (any_eq_true.mpr ⟨node, hnode, by simpa using hlt⟩)

variable {malloc : Bool} {keyPrefix secret : CString}

variable {lst : AuthList}

theorem KeyInv.addSvrKey_error (h : KeyInv lst) {priority : ServerKeyPriority}
    (hop : Careful lst (.addSvrKey malloc keyPrefix secret priority))
    (herr : (Alcs.addSvrKey malloc lst keyPrefix secret priority).1 ≠ coapSuccess) :
    (Alcs.addSvrKey malloc lst keyPrefix secret priority).2 = lst := by
  rcases addSvrKey_cases malloc lst keyPrefix secret priority with
    heq | ⟨hroom, hlen, ⟨node, hnode, hlt, heq⟩ | ⟨hmalloc, heq⟩ | ⟨-, heq⟩⟩
  · rw [heq]
  · -- one key is higher, and all have the same priority
    rw [heq]
    apply alcsRemoveLowPriorityKey_eq_self
    intro other hother
    rw [h.same_priority other hother node hnode]
    omega
  · rw [heq]
    apply alcsRemoveLowPriorityKey_eq_self
    rcases hop with htrue | hfull | hshort | hlow
    · rw [hmalloc] at htrue
      cases htrue
    · omega
    · exact absurd hlen hshort
    · exact hlow
  · rw [heq] at herr
    exact absurd rfl herr

theorem KeyInv.addSvrKey (h : KeyInv lst) {priority : ServerKeyPriority}
    (hop : Careful lst (.addSvrKey malloc keyPrefix secret priority)) :
    KeyInv (Alcs.addSvrKey malloc lst keyPrefix secret priority).2 := by
  by_cases herr : (Alcs.addSvrKey malloc lst keyPrefix secret priority).1 = coapSuccess
  swap
  · rw [h.addSvrKey_error hop herr]
    exact h
  rcases addSvrKey_cases malloc lst keyPrefix secret priority with
    heq | ⟨hroom, -, ⟨node, -, -, heq⟩ | ⟨-, heq⟩ | ⟨hhigh, heq⟩⟩
  · rw [heq] at herr
    exact absurd herr (by decide : coapErrorInvalidLength ≠ coapSuccess)
  · rw [heq] at herr
    exact absurd herr (by decide : coapErrorUnsupported ≠ coapSuccess)
  · rw [heq] at herr
    exact absurd herr (by decide : coapErrorMalloc ≠ coapSuccess)
  rw [heq]
  have hcount : (alcsRemoveLowPriorityKey lst priority).svrCount.toNat =
      (alcsRemoveLowPriorityKey lst priority).lstSvr.length :=
    svrCount_alcsRemoveLowPriorityKey h.svr_count
  have hlen := countP_low_add_length lst priority
  have hsvr := h.svr_count
  have hlt : (alcsRemoveLowPriorityKey lst priority).lstSvr.length < keyMaxcount := by omega
  refine ⟨?_, ?_, h.group_count, h.group_le, h.ctl_count, h.ctl_le, ?_, ?_⟩
  · rw [toNat_add_one hcount hlt, length_append, length_singleton]
  · rw [length_append, length_singleton]
    omega
  · have hpri : ∀ node ∈ (alcsRemoveLowPriorityKey lst priority).lstSvr ++
        [⟨keyPrefix, secret, priority⟩], node.priority = priority := by
      intro node hnode
      rcases mem_append.mp hnode with hold | hnew
      · exact priority_eq_of_mem hold (hhigh node hold)
      · rw [mem_singleton.mp hnew]
    intro a ha b hb
    rw [hpri a ha, hpri b hb]
  · intro _
    simp

theorem KeyInv.alcsRemoveSvrKey (h : KeyInv lst)
    (hop : Careful lst (.removeSvrKey keyPrefix)) :
    KeyInv (Alcs.alcsRemoveSvrKey lst keyPrefix) := by
  unfold Alcs.alcsRemoveSvrKey
  split_ifs with hany
  · obtain ⟨node, hnode, hp⟩ := any_eq_true.mp hany
    have hlen := length_eraseP_of_mem hnode hp
    have hpos := length_pos_of_mem hnode
    have hle := h.svr_le
    refine ⟨?_, ?_, h.group_count, h.group_le, h.ctl_count, h.ctl_le, ?_, ?_⟩
    · have hsub := toNat_sub_ofNat h.svr_count (k := 1) (by omega)
      exact hsub.trans hlen.symm
    · simp only
      omega
    · intro a ha b hb
      exact h.same_priority a (mem_of_mem_eraseP ha) b (mem_of_mem_eraseP hb)
    · intro hgroup hnil
      have hnil' : lst.lstSvr.eraseP (SvrKeyInfo.hasPrefix keyPrefix) = [] := hnil
      rw [hnil', length_nil] at hlen
      rcases hop.2 hgroup with htwo | hnone
      · omega
      · exact hnone node hnode (by simpa [SvrKeyInfo.hasPrefix] using hp)
  · exact h

/-- What `alcs_add_svr_group` can do: refuse, fail to allocate, or add the key. -/
theorem alcsAddSvrGroup_cases (malloc : Bool) (lst : AuthList)
    (groupid keyPrefix secret : CString) :
    Alcs.alcsAddSvrGroup malloc lst groupid keyPrefix secret = (coapErrorInvalidLength, lst) ∨
      Alcs.alcsAddSvrGroup malloc lst groupid keyPrefix secret = (coapErrorMalloc, lst) ∨
      (malloc = true ∧ lst.svrGroupCount < keyMaxcount ∧
        Alcs.alcsAddSvrGroup malloc lst groupid keyPrefix secret = (coapSuccess, { lst with
          lstSvrGroup := lst.lstSvrGroup ++
            [⟨groupid, keyPrefix.take keyprefixLen, secret, .localdefault⟩]
          svrGroupCount := lst.svrGroupCount + 1 })) := by
  unfold Alcs.alcsAddSvrGroup
  by_cases hfull : lst.svrGroupCount ≥ keyMaxcount
  · exact .inl (if_pos hfull)
  rw [if_neg hfull]
  cases malloc with
  | false => exact .inr (.inl rfl)
  | true => exact .inr (.inr ⟨rfl, not_le.mp hfull, rfl⟩)

theorem KeyInv.alcsAddSvrGroup (h : KeyInv lst) {groupid : CString}
    (hop : Careful lst (.addSvrGroup malloc groupid keyPrefix secret)) :
    KeyInv (Alcs.alcsAddSvrGroup malloc lst groupid keyPrefix secret).2 := by
  rcases alcsAddSvrGroup_cases malloc lst groupid keyPrefix secret with
    heq | heq | ⟨hmalloc, hfull, heq⟩
  · rw [heq]
    exact h
  · rw [heq]
    exact h
  rw [heq]
  have hcount := h.group_count
  refine ⟨h.svr_count, h.svr_le, ?_, ?_, h.ctl_count, h.ctl_le, h.same_priority, ?_⟩
  · simp only [length_append, length_singleton]
    omega
  · simp only [length_append, length_singleton]
    omega
  · rintro ⟨gnode, hgnode, hlen⟩
    rcases mem_append.mp hgnode with hold | hnew
    · exact h.svr_of_group ⟨gnode, hold, hlen⟩
    rw [mem_singleton.mp hnew] at hlen
    rcases hop with hfalse | hmax | hshort | hne
    · rw [hmalloc] at hfalse
      cases hfalse
    · omega
    · simp only [CString.take, length_take] at hlen
      omega
    · exact hne

/-- What `alcs_add_client_key` can do: refuse, fail to allocate, or add the key. -/
theorem alcsAddClientKey_cases (malloc : Bool) (lst : AuthList) (accesskey accesstoken : CString)
    (deviceName : Option CString) :
    alcsAddClientKey malloc lst accesskey accesstoken deviceName = (coapErrorInvalidLength, lst) ∨
      alcsAddClientKey malloc lst accesskey accesstoken deviceName = (coapErrorMalloc, lst) ∨
      (lst.ctlCount.toNat < keyMaxcount ∧
        alcsAddClientKey malloc lst accesskey accesstoken deviceName = (coapSuccess, { lst with
          lstCtl := lst.lstCtl ++ [⟨accesskey, accesstoken, deviceName⟩]
          ctlCount := lst.ctlCount + 1 })) := by
  unfold alcsAddClientKey
  by_cases hfull : lst.ctlCount.toNat ≥ keyMaxcount
  · exact .inl (if_pos hfull)
  rw [if_neg hfull]
  cases malloc with
  | false => exact .inr (.inl rfl)
  | true => exact .inr (.inr ⟨not_le.mp hfull, rfl⟩)

theorem KeyInv.keyStep (h : KeyInv lst) {op : KeyOp} (hop : Careful lst op) :
    KeyInv (Alcs.keyStep lst op) := by
  cases op with
  | addSvrKey malloc keyPrefix secret priority => exact h.addSvrKey hop
  | removeSvrKey keyPrefix => exact h.alcsRemoveSvrKey hop
  | addSvrGroup malloc groupid keyPrefix secret => exact h.alcsAddSvrGroup hop
  | setRevocation seqlist =>
    exact ⟨h.svr_count, h.svr_le, h.group_count, h.group_le, h.ctl_count, h.ctl_le,
      h.same_priority, h.svr_of_group⟩
  | addClientKey malloc accesskey accesstoken deviceName =>
    show KeyInv (alcsAddClientKey malloc lst accesskey accesstoken deviceName).2
    rcases alcsAddClientKey_cases malloc lst accesskey accesstoken deviceName with
      heq | heq | ⟨hfull, heq⟩
    · rw [heq]
      exact h
    · rw [heq]
      exact h
    rw [heq]
    have hcount := h.ctl_count
    have hlt : lst.lstCtl.length < keyMaxcount := by omega
    refine ⟨h.svr_count, h.svr_le, h.group_count, h.group_le, ?_, ?_, h.same_priority,
      h.svr_of_group⟩
    · rw [toNat_add_one hcount hlt, length_append, length_singleton]
    · rw [length_append, length_singleton]
      omega
  | removeClientKey key =>
    have hsame : alcsRemoveClientKey lst key = lst := by
      unfold alcsRemoveClientKey
      rw [eraseP_of_forall_not hop]
    show KeyInv (alcsRemoveClientKey lst key)
    rw [hsame]
    exact h

/-! ## Which keys are accepted -/

/-- The access key, split as in `alcs_rec_auth`, passes `is_legal_key`. -/
def Accepts (lst : AuthList) (accesskey : CString) : Prop :=
  (isLegalKey lst (accesskey.chars.take keyprefixLen)
    ((accesskey.chars.drop (keyprefixLen + 1 + 1)).take keyseqLen)).1.isSome

/-- The prefix is in the list of the device or of its groups. -/
def Listed (lst : AuthList) (keyPrefix : Bytes) : Prop :=
  (∃ node ∈ lst.lstSvr, node.keyprefix.chars = keyPrefix) ∨
    ∃ gnode ∈ lst.lstSvrGroup, gnode.keyInfo.keyprefix.chars = keyPrefix

/-- The sequence is one of the entries of the revocation list. -/
def Revoked (lst : AuthList) (keyseq : Bytes) : Prop :=
  ∃ revocation, lst.revocation = some revocation ∧
    ∃ i, (revocation.chars.drop (keyseqLen * i)).take keyseqLen = keyseq

theorem isRevoked_iff (revocation : CString) {keyseq : Bytes} (hnul : 0 ∉ keyseq)
    (hlen : keyseq.length = keyseqLen) :
    isRevoked revocation keyseq = true ↔
      ∃ i, (revocation.chars.drop (keyseqLen * i)).take keyseqLen = keyseq := by
  have hentry : ∀ i, strncmpEq keyseqLen keyseq (revocation.chars.drop (keyseqLen * i)) = true ↔
      (revocation.chars.drop (keyseqLen * i)).take keyseqLen = keyseq := by
    intro i
    have hdrop : 0 ∉ revocation.chars.drop (keyseqLen * i) :=
      fun h => revocation.nul_free (mem_of_mem_drop h)
    rw [strncmpEq_iff hnul hdrop, take_of_length_le (by omega)]
    exact eq_comm
  unfold isRevoked
  rw [any_eq_true]
  constructor
  · rintro ⟨i, -, hi⟩
    exact ⟨i, (hentry i).mp hi⟩
  · rintro ⟨i, hi⟩
    refine ⟨i, mem_range.mpr ?_, (hentry i).mpr hi⟩
    -- a full entry ends within the list
    have hbound : keyseqLen ≤ revocation.chars.length - keyseqLen * i := by
      have hcut := congrArg List.length hi
      rw [length_take, length_drop, hlen] at hcut
      omega
    simp only [keyseqLen] at hbound ⊢
    omega

theorem isFor_iff {keyPrefix : Bytes} (hnul : 0 ∉ keyPrefix)
    (hlen : keyPrefix.length = keyprefixLen) (node : SvrKeyInfo) :
    node.isFor keyPrefix = true ↔ node.keyprefix.chars = keyPrefix := by
  unfold SvrKeyInfo.isFor
  rw [decide_eq_true_iff, strncmpEq_iff hnul node.keyprefix.nul_free,
    take_of_length_le (Nat.le_of_eq hlen)]
  constructor
  · rintro ⟨hnode, heq⟩
    rw [heq, take_of_length_le (Nat.le_of_eq hnode)]
  · rintro heq
    rw [heq]
    exact ⟨hlen, (take_of_length_le (Nat.le_of_eq hlen)).symm⟩

/-- The first key with this prefix, where the keys of the device come before those of groups. -/
def firstKey (lst : AuthList) (keyPrefix : Bytes) : Option SvrKeyInfo :=
  (lst.lstSvr ++ lst.lstSvrGroup.map SvrGroupItem.keyInfo).find? fun info =>
    info.keyprefix.chars = keyPrefix

/-- `is_legal_key` finds the first key, if the sequence is not revoked and there is a device
key. -/
theorem isLegalKey_eq_some_iff (lst : AuthList) {keyPrefix keyseq : Bytes}
    (hkeyPrefix : 0 ∉ keyPrefix) (hplen : keyPrefix.length = keyprefixLen)
    (hseq : 0 ∉ keyseq) (hslen : keyseq.length = keyseqLen) (found : SvrKeyInfo) :
    (isLegalKey lst keyPrefix keyseq).1 = some found ↔
      ¬ Revoked lst keyseq ∧ lst.lstSvr ≠ [] ∧ firstKey lst keyPrefix = some found := by
  have hfor : SvrKeyInfo.isFor keyPrefix = fun info => decide (info.keyprefix.chars = keyPrefix) := by
    funext info
    rw [Bool.eq_iff_iff, isFor_iff hkeyPrefix hplen, decide_eq_true_iff]
  have hfirst : firstKey lst keyPrefix = (lst.lstSvr.find? (SvrKeyInfo.isFor keyPrefix)).or
      ((lst.lstSvrGroup.find? fun gnode => gnode.keyInfo.isFor keyPrefix).map
        SvrGroupItem.keyInfo) := by
    unfold firstKey
    rw [hfor, List.find?_append, List.find?_map]
    rfl
  have hrev : (lst.revocation.any fun revocation => isRevoked revocation keyseq) = true ↔
      Revoked lst keyseq := by
    rw [Option.any_eq_true]
    exact exists_congr fun revocation => and_congr_right fun _ => isRevoked_iff revocation hseq hslen
  unfold isLegalKey
  by_cases hrevoked : Revoked lst keyseq
  · rw [if_pos (hrev.mpr hrevoked)]
    simp [hrevoked]
  rw [if_neg (mt hrev.mp hrevoked)]
  by_cases hempty : lst.lstSvr = []
  · simp [hempty]
  rw [if_neg (by simpa using hempty), hfirst]
  cases lst.lstSvr.find? (SvrKeyInfo.isFor keyPrefix) with
  | some node => simp [hempty, hrevoked]
  | none =>
    cases lst.lstSvrGroup.find? fun gnode => gnode.keyInfo.isFor keyPrefix with
    | some gnode => simp [hempty, hrevoked]
    | none => simp

theorem listed_iff (lst : AuthList) (keyPrefix : Bytes) :
    Listed lst keyPrefix ↔ ∃ found, firstKey lst keyPrefix = some found := by
  rw [← Option.isSome_iff_exists, firstKey, List.find?_isSome]
  simp only [mem_append, mem_map, decide_eq_true_eq, or_and_right, exists_or, Listed]
  simp

/-- The key `is_legal_key` finds for an access key, of the length `alcs_rec_auth` asks for or
longer. -/
theorem isLegalKey_accesskey_iff (lst : AuthList) (accesskey : CString)
    (hlen : keyprefixLen + 1 + 1 + keyseqLen ≤ accesskey.chars.length) (found : SvrKeyInfo) :
    (isLegalKey lst (accesskey.chars.take keyprefixLen)
      ((accesskey.chars.drop (keyprefixLen + 1 + 1)).take keyseqLen)).1 = some found ↔
      ¬ Revoked lst ((accesskey.chars.drop (keyprefixLen + 1 + 1)).take keyseqLen) ∧
        lst.lstSvr ≠ [] ∧ firstKey lst (accesskey.chars.take keyprefixLen) = some found := by
  apply isLegalKey_eq_some_iff
  · exact fun h0 => accesskey.nul_free (mem_of_mem_take h0)
  · rw [length_take]
    omega
  · exact fun h0 => accesskey.nul_free (mem_of_mem_drop (mem_of_mem_take h0))
  · rw [length_take, length_drop]
    omega

theorem KeyInv.accepts_iff (h : KeyInv lst) (accesskey : CString)
    (hlen : keyprefixLen + 1 + 1 + keyseqLen ≤ accesskey.chars.length) :
    Accepts lst accesskey ↔
      Listed lst (accesskey.chars.take keyprefixLen) ∧
        ¬ Revoked lst ((accesskey.chars.drop (keyprefixLen + 1 + 1)).take keyseqLen) := by
  unfold Accepts
  rw [Option.isSome_iff_exists]
  constructor
  · rintro ⟨found, hfound⟩
    obtain ⟨hrevoked, -, hfirst⟩ := (isLegalKey_accesskey_iff lst accesskey hlen found).mp hfound
    exact ⟨(listed_iff _ _).mpr ⟨found, hfirst⟩, hrevoked⟩
  · rintro ⟨hlisted, hrevoked⟩
    obtain ⟨found, hfirst⟩ := (listed_iff _ _).mp hlisted
    refine ⟨found, (isLegalKey_accesskey_iff lst accesskey hlen found).mpr ⟨hrevoked, ?_, hfirst⟩⟩
    rcases hlisted with ⟨node, hnode, -⟩ | ⟨gnode, hgnode, heq⟩
    · exact ne_nil_of_mem hnode
    · apply h.svr_of_group
      refine ⟨gnode, hgnode, ?_⟩
      rw [heq, length_take]
      omega

/-! ## Keys that are removed -/

/-- The call adds a key with this prefix. -/
def Adds (keyPrefix : CString) (lst : AuthList) : KeyOp → Prop
  | .addSvrKey malloc prefix' secret priority =>
    (keyCall lst (.addSvrKey malloc prefix' secret priority)).1 = coapSuccess ∧
      prefix'.chars = keyPrefix.chars
  | .addSvrGroup malloc groupid prefix' secret =>
    (keyCall lst (.addSvrGroup malloc groupid prefix' secret)).1 = coapSuccess ∧
      (prefix'.take keyprefixLen).chars = keyPrefix.chars
  | _ => False

theorem not_listed_keyStep {op : KeyOp} (hgone : ¬ Listed lst keyPrefix.chars)
    (hop : ¬ Adds keyPrefix lst op) : ¬ Listed (Alcs.keyStep lst op) keyPrefix.chars := by
  obtain ⟨hdev, hgroup⟩ := not_or.mp hgone
  cases op with
  | addSvrKey malloc prefix' secret priority =>
    -- what is left once the keys of lower priority have been removed
    have hpurged : ¬ Listed (alcsRemoveLowPriorityKey lst priority) keyPrefix.chars := by
      rintro (⟨node, hnode, heq⟩ | hold)
      · exact hdev ⟨node, (mem_filter.mp hnode).1, heq⟩
      · exact hgroup hold
    show ¬ Listed (Alcs.addSvrKey malloc lst prefix' secret priority).2 keyPrefix.chars
    rcases addSvrKey_cases malloc lst prefix' secret priority with
      heq | ⟨-, -, ⟨-, -, -, heq⟩ | ⟨-, heq⟩ | ⟨-, heq⟩⟩
    · rw [heq]
      exact hgone
    · rw [heq]
      exact hpurged
    · rw [heq]
      exact hpurged
    rw [heq]
    rintro (⟨node, hnode, hkeyPrefix⟩ | hold)
    · rcases mem_append.mp hnode with hrest | hnew
      · exact hpurged (.inl ⟨node, hrest, hkeyPrefix⟩)
      · rw [mem_singleton.mp hnew] at hkeyPrefix
        exact hop ⟨congrArg Prod.fst heq, hkeyPrefix⟩
    · exact hgroup hold
  | removeSvrKey prefix' =>
    show ¬ Listed (Alcs.alcsRemoveSvrKey lst prefix') keyPrefix.chars
    unfold Alcs.alcsRemoveSvrKey
    split_ifs with hany
    · rintro (⟨node, hnode, hkeyPrefix⟩ | hold)
      · exact hdev ⟨node, mem_of_mem_eraseP hnode, hkeyPrefix⟩
      · exact hgroup hold
    · exact hgone
  | addSvrGroup malloc groupid prefix' secret =>
    show ¬ Listed (Alcs.alcsAddSvrGroup malloc lst groupid prefix' secret).2 keyPrefix.chars
    rcases alcsAddSvrGroup_cases malloc lst groupid prefix' secret with
      heq | heq | ⟨-, -, heq⟩
    · rw [heq]
      exact hgone
    · rw [heq]
      exact hgone
    rw [heq]
    rintro (hold | ⟨gnode, hgnode, hkeyPrefix⟩)
    · exact hdev hold
    · rcases mem_append.mp hgnode with hrest | hnew
      · exact hgroup ⟨gnode, hrest, hkeyPrefix⟩
      · rw [mem_singleton.mp hnew] at hkeyPrefix
        exact hop ⟨congrArg Prod.fst heq, hkeyPrefix⟩
  | setRevocation seqlist => exact hgone
  | addClientKey malloc accesskey accesstoken deviceName =>
    show ¬ Listed (alcsAddClientKey malloc lst accesskey accesstoken deviceName).2 keyPrefix.chars
    rcases alcsAddClientKey_cases malloc lst accesskey accesstoken deviceName with
      heq | heq | ⟨-, heq⟩
    · rw [heq]
      exact hgone
    · rw [heq]
      exact hgone
    · rw [heq]
      exact hgone
  | removeClientKey key => exact hgone

theorem not_listed_keyRun {ops : List KeyOp} (hgone : ¬ Listed lst keyPrefix.chars)
    (hops : AllSteps Alcs.keyStep (fun lst op => ¬ Adds keyPrefix lst op) lst ops) :
    ¬ Listed (Alcs.keyRun lst ops) keyPrefix.chars := by
  induction ops generalizing lst with
  | nil => exact hgone
  | cons op ops ih => exact ih (not_listed_keyStep hgone hops.1) hops.2

theorem not_listed_alcsRemoveSvrKey
    (honce : lst.lstSvr.countP (SvrKeyInfo.hasPrefix keyPrefix) ≤ 1)
    (hgroup : ∀ gnode ∈ lst.lstSvrGroup, gnode.keyInfo.keyprefix.chars ≠ keyPrefix.chars) :
    ¬ Listed (Alcs.alcsRemoveSvrKey lst keyPrefix) keyPrefix.chars := by
  unfold Alcs.alcsRemoveSvrKey
  split_ifs with hany
  · rintro (⟨node, hnode, hkeyPrefix⟩ | ⟨gnode, hgnode, hkeyPrefix⟩)
    · obtain ⟨first, hfirst, hp⟩ := any_eq_true.mp hany
      obtain ⟨a, front, back, hfront, ha, hsplit, herase⟩ := exists_of_eraseP hfirst hp
      have hzero : (front ++ back).countP (SvrKeyInfo.hasPrefix keyPrefix) = 0 := by
        rw [hsplit, countP_append, countP_cons_of_pos ha] at honce
        rw [countP_append]
        omega
      have hnode' : node ∈ front ++ back := herase ▸ hnode
      exact countP_eq_zero.mp hzero node hnode' (decide_eq_true hkeyPrefix)
    · exact hgroup gnode hgnode hkeyPrefix
  · rintro (⟨node, hnode, hkeyPrefix⟩ | ⟨gnode, hgnode, hkeyPrefix⟩)
    · exact hany (any_eq_true.mpr ⟨node, hnode, decide_eq_true hkeyPrefix⟩)
    · exact hgroup gnode hgnode hkeyPrefix

/-! ## The whole run -/

theorem KeyInv.keyRun {ops : List KeyOp} (hops : AllSteps Alcs.keyStep Careful authListInit ops) :
    KeyInv (Alcs.keyRun authListInit ops) :=
  GuardedRun.inv_of_allSteps (fun _ _ h hop => h.keyStep hop) ops keyInv_init hops

theorem KeyInv.keyStep_error (h : KeyInv lst) {op : KeyOp} (hop : Careful lst op)
    (herr : (keyCall lst op).1 ≠ coapSuccess) : Alcs.keyStep lst op = lst := by
  cases op with
  | addSvrKey malloc keyPrefix secret priority => exact h.addSvrKey_error hop herr
  | addSvrGroup malloc groupid keyPrefix secret =>
    rcases alcsAddSvrGroup_cases malloc lst groupid keyPrefix secret with
      heq | heq | ⟨-, -, heq⟩
    · exact congrArg Prod.snd heq
    · exact congrArg Prod.snd heq
    · exact absurd (congrArg Prod.fst heq) herr
  | addClientKey malloc accesskey accesstoken deviceName =>
    rcases alcsAddClientKey_cases malloc lst accesskey accesstoken deviceName with
      heq | heq | ⟨-, heq⟩
    · exact congrArg Prod.snd heq
    · exact congrArg Prod.snd heq
    · exact absurd (congrArg Prod.fst heq) herr
  | removeSvrKey keyPrefix => exact absurd rfl herr
  | setRevocation seqlist => exact absurd rfl herr
  | removeClientKey key => exact absurd rfl herr

/-- **The key lists.**  Along a careful run the lists are counted, within `KEY_MAXCOUNT` and of
one priority, a call that fails changes nothing, keys are accepted exactly when they are listed
and not revoked, and a key that was removed is not accepted until it is added again. -/
theorem key_lists (ops later : List KeyOp)
    (hops : AllSteps keyStep Careful authListInit (ops ++ later)) :
    let lst := keyRun authListInit ops
    (lst.svrCount.toNat = lst.lstSvr.length ∧ lst.lstSvr.length ≤ keyMaxcount) ∧
      (lst.svrGroupCount = lst.lstSvrGroup.length ∧ lst.lstSvrGroup.length ≤ keyMaxcount) ∧
      (lst.ctlCount.toNat = lst.lstCtl.length ∧ lst.lstCtl.length ≤ keyMaxcount) ∧
      (∀ a ∈ lst.lstSvr, ∀ b ∈ lst.lstSvr, a.priority = b.priority) ∧
      (∀ op rest, later = op :: rest → (keyCall lst op).1 ≠ coapSuccess → keyStep lst op = lst) ∧
      (∀ accesskey : CString, keyprefixLen + 1 + 1 + keyseqLen ≤ accesskey.chars.length →
        (Accepts lst accesskey ↔
          Listed lst (accesskey.chars.take keyprefixLen) ∧
            ¬ Revoked lst ((accesskey.chars.drop (keyprefixLen + 1 + 1)).take keyseqLen))) ∧
      ∀ (keyPrefix : CString) (between rest : List KeyOp),
        later = .removeSvrKey keyPrefix :: (between ++ rest) →
        (∀ gnode ∈ lst.lstSvrGroup, gnode.keyInfo.keyprefix.chars ≠ keyPrefix.chars) →
        AllSteps keyStep (fun lst op => ¬ Adds keyPrefix lst op)
          (keyStep lst (.removeSvrKey keyPrefix)) between →
        ∀ accesskey : CString, keyprefixLen + 1 + 1 + keyseqLen ≤ accesskey.chars.length →
          accesskey.chars.take keyprefixLen = keyPrefix.chars →
          ¬ Accepts (keyRun (keyStep lst (.removeSvrKey keyPrefix)) between) accesskey := by
  intro lst
  obtain ⟨hpre, hlater⟩ := (GuardedRun.allSteps_append _ _ _).mp hops
  have hinv : KeyInv lst := KeyInv.keyRun hpre
  refine ⟨⟨hinv.svr_count, hinv.svr_le⟩, ⟨hinv.group_count, hinv.group_le⟩,
    ⟨hinv.ctl_count, hinv.ctl_le⟩, hinv.same_priority, ?_, hinv.accepts_iff, ?_⟩
  · rintro op rest rfl herr
    exact hinv.keyStep_error hlater.1 herr
  · rintro keyPrefix between rest rfl hgroup hbetween accesskey hlen hkeyPrefix haccept
    obtain ⟨hremove, hrest⟩ := hlater
    have hafter : KeyInv (keyRun (keyStep lst (.removeSvrKey keyPrefix)) between) :=
      GuardedRun.inv_of_allSteps (fun _ _ h hop => h.keyStep hop) between (hinv.keyStep hremove)
        ((GuardedRun.allSteps_append _ _ _).mp hrest).1
    have honce : lst.lstSvr.countP (SvrKeyInfo.hasPrefix keyPrefix) ≤ 1 := by
      rcases hremove.1 with honce | ⟨gnode, hgnode, heq⟩
      · exact honce
      · exact absurd heq (hgroup gnode hgnode)
    have hgone : ¬ Listed (keyRun (keyStep lst (.removeSvrKey keyPrefix)) between) keyPrefix.chars :=
      not_listed_keyRun (not_listed_alcsRemoveSvrKey honce hgroup) hbetween
    exact hgone (hkeyPrefix ▸ ((hafter.accepts_iff accesskey hlen).mp haccept).1)

/-- The prefix `QYTP1234`. -/
def keyprefixA : CString := ⟨[0x51, 0x59, 0x54, 0x50, 0x31, 0x32, 0x33, 0x34], by decide⟩

/-- The prefix `QYTP5678`. -/
def keyprefixB : CString := ⟨[0x51, 0x59, 0x54, 0x50, 0x35, 0x36, 0x37, 0x38], by decide⟩

/-- The access key `QYTP123401abc`. -/
def accesskeyA : CString :=
  ⟨keyprefixA.chars ++ [0x30, 0x31, 0x61, 0x62, 0x63], by decide⟩

/-- The secret `x`. -/
def secretX : CString := ⟨[0x78], by decide⟩

/-- Two device keys, and a key of a group; then the first is removed. -/
theorem key_lists_removed :
    let lst := keyRun authListInit [.addSvrKey true keyprefixB secretX .localsetup,
      .addSvrKey true keyprefixA secretX .localsetup, .addSvrGroup true secretX keyprefixB secretX]
    lst.svrCount = 2 ∧ Accepts lst accesskeyA ∧
      ¬ Accepts (keyStep lst (.removeSvrKey keyprefixA)) accesskeyA := by
  intro lst
  have hops : AllSteps keyStep Careful authListInit
      ([.addSvrKey true keyprefixB secretX .localsetup,
        .addSvrKey true keyprefixA secretX .localsetup,
        .addSvrGroup true secretX keyprefixB secretX] ++ [.removeSvrKey keyprefixA]) := by
    refine ⟨.inl rfl, .inl rfl, ?_, ⟨.inl (by decide), fun _ => .inl (by decide)⟩, trivial⟩
    exact .inr (.inr (.inr (cons_ne_nil _ _)))
  have hlists := key_lists _ _ hops
  refine ⟨rfl, rfl, ?_⟩
  exact hlists.2.2.2.2.2.2 keyprefixA [] [] rfl (by decide) trivial accesskeyA (by decide) rfl

/-- A key that the client removes stays counted; a key of low priority is gone although the
new one was not added; a key that was added twice is accepted after it was removed; the key of
a group is not accepted on its own. -/
theorem key_lists_broken :
    let client := keyRun authListInit [.addClientKey true accesskeyA secretX none,
      .removeClientKey keyprefixA]
    let single := keyRun authListInit [.addSvrKey true keyprefixA secretX .localdefault]
    let purge := KeyOp.addSvrKey false keyprefixB secretX .localsetup
    let twice := keyRun authListInit [.addSvrKey true keyprefixA secretX .localsetup,
      .addSvrKey true keyprefixA secretX .localsetup, .removeSvrKey keyprefixA]
    let group := keyRun authListInit [.addSvrGroup true secretX keyprefixA secretX]
    (client.ctlCount.toNat = 1 ∧ client.lstCtl.length = 0) ∧
      ((keyCall single purge).1 ≠ coapSuccess ∧ keyStep single purge ≠ single) ∧
      Accepts twice accesskeyA ∧
      (¬ Accepts group accesskeyA ∧ Listed group (accesskeyA.chars.take keyprefixLen) ∧
        ¬ Revoked group ((accesskeyA.chars.drop (keyprefixLen + 1 + 1)).take keyseqLen)) := by
  intro client single purge twice group
  refine ⟨⟨rfl, rfl⟩, ⟨by decide, ?_⟩, rfl, ?_, ?_, ?_⟩
  · intro hsame
    have hlen : (keyStep single purge).lstSvr.length = single.lstSvr.length := by rw [hsame]
    exact absurd hlen (by decide)
  · unfold Accepts
    decide
  · exact .inr ⟨_, mem_singleton_self _, rfl⟩
  · rintro ⟨revocation, hsome, -⟩
    cases hsome

end Iotkit.Alcs
