/-
# The keys of ALCS

The `auth_list` of a device (`alcs_api_internal.h`): the keys of the device and of its groups
as a server, and the access keys it holds as a client, with the functions of `alcs_server.c`,
`alcs_client.c` and `alcs_api.c` that add, remove and look up keys.
-/
import Iotkit.CoapContext

namespace Iotkit.Alcs

open Coap (coapSuccess coapErrorMalloc coapErrorInvalidLength cChars cChars_eq_self)

abbrev coapErrorUnsupported : ℤ := 2 ^ 8 + 13

def keyMaxcount : ℕ := 10
def keyprefixLen : ℕ := 8
def keyseqLen : ℕ := 3

/-! ## C strings -/

/-- A C string, without its terminator. -/
structure CString where
  chars : Bytes
  nul_free : 0 ∉ chars

def CString.empty : CString := ⟨[], List.not_mem_nil⟩

/-- The first `n` characters, as `strncpy` of a longer string leaves them. -/
def CString.take (n : ℕ) (s : CString) : CString :=
  ⟨s.chars.take n, fun h => s.nul_free (List.mem_of_mem_take h)⟩

/-- `strncmp` finds no difference; behind the bytes of a list stands a terminator. -/
def strncmpEq : ℕ → Bytes → Bytes → Bool
  | 0, _, _ => true
  | n + 1, a, b =>
    if a.headD 0 ≠ b.headD 0 then false
    else if a.headD 0 = 0 then true
    else strncmpEq n a.tail b.tail

/-- `strstr (s, t) == s`. -/
def startsWith (s t : Bytes) : Bool := t.isPrefixOf s

/-! ## Keys -/

/-- Where a key of the server comes from. -/
inductive ServerKeyPriority
  | localdefault
  | localsetup
  | fromcloudsvr
  deriving DecidableEq

def ServerKeyPriority.value : ServerKeyPriority → ℕ
  | .localdefault => 0
  | .localsetup => 1
  | .fromcloudsvr => 2

/-- A key of the server. -/
structure SvrKeyInfo where
  keyprefix : CString
  secret : CString
  priority : ServerKeyPriority

/-- A key of the server for a group. -/
structure SvrGroupItem where
  id : CString
  keyInfo : SvrKeyInfo

/-- `ctl_key_item`; `productKey` is never set. -/
structure CtlKeyItem where
  accessKey : CString
  accessToken : CString
  deviceName : Option CString

/-- A key of the client for a group. -/
structure CtlGroupItem where
  id : CString
  accessKey : CString
  accessToken : CString

/-- The keys that were added, with their counters. -/
structure AuthList where
  lstCtl : List CtlKeyItem
  ctlCount : UInt8
  lstSvr : List SvrKeyInfo
  svrCount : UInt8
  revocation : Option CString
  lstCtlGroup : List CtlGroupItem
  ctlGroupCount : ℤ
  lstSvrGroup : List SvrGroupItem
  svrGroupCount : ℤ

/-- The lists as `alcs_auth_init` leaves them. -/
def authListInit : AuthList := ⟨[], 0, [], 0, none, [], 0, [], 0⟩

/-! ## The keys of a server -/

/-- The first key of a lower priority is removed. -/
def alcsRemoveLowPriorityKey (lst : AuthList) (priority : ServerKeyPriority) : AuthList :=
  let low (node : SvrKeyInfo) : Bool := node.priority.value < priority.value
  { lst with
    lstSvr := lst.lstSvr.filter fun node => !low node
    svrCount := lst.svrCount - UInt8.ofNat (lst.lstSvr.countP low) }

/-- `add_svr_key`; `malloc` says whether both allocations succeed. -/
def addSvrKey (malloc : Bool) (lst : AuthList) (keyPrefix secret : CString)
    (priority : ServerKeyPriority) : ℤ × AuthList :=
  if lst.svrCount.toNat ≥ keyMaxcount ∨ keyPrefix.chars.length ≠ keyprefixLen then
    (coapErrorInvalidLength, lst)
  else
    let lst := alcsRemoveLowPriorityKey lst priority
    if lst.lstSvr.any fun node => priority.value < node.priority.value then
      (coapErrorUnsupported, lst)
    else if ¬ malloc then (coapErrorMalloc, lst)
    else
      (coapSuccess, { lst with
        lstSvr := lst.lstSvr ++ [⟨keyPrefix, secret, priority⟩]
        svrCount := lst.svrCount + 1 })

def SvrKeyInfo.hasPrefix (keyPrefix : CString) (node : SvrKeyInfo) : Bool :=
  node.keyprefix.chars = keyPrefix.chars

/-- The first key with the prefix is removed. -/
def alcsRemoveSvrKey (lst : AuthList) (keyPrefix : CString) : AuthList :=
  if lst.lstSvr.any (SvrKeyInfo.hasPrefix keyPrefix) then
    { lst with
      lstSvr := lst.lstSvr.eraseP (SvrKeyInfo.hasPrefix keyPrefix)
      svrCount := lst.svrCount - 1 }
  else lst

/-- `alcs_set_revocation`; the copy can be allocated. -/
def alcsSetRevocation (lst : AuthList) (seqlist : Option CString) : AuthList :=
  { lst with revocation := seqlist.filter fun s => s.chars ≠ [] }

/-- `alcs_add_svr_group`; `malloc` says whether all allocations succeed. -/
def alcsAddSvrGroup (malloc : Bool) (lst : AuthList) (groupid keyPrefix secret : CString) :
    ℤ × AuthList :=
  if lst.svrGroupCount ≥ keyMaxcount then (coapErrorInvalidLength, lst)
  else if ¬ malloc then (coapErrorMalloc, lst)
  else
    (coapSuccess, { lst with
      lstSvrGroup := lst.lstSvrGroup ++
        [⟨groupid, keyPrefix.take keyprefixLen, secret, .localdefault⟩]
      svrGroupCount := lst.svrGroupCount + 1 })

/-- `Auth_Result_Code`. -/
abbrev alcsAuthOk : ℤ := 200
abbrev alcsAuthRevocate : ℤ := 501
abbrev alcsAuthUnmatchprefix : ℤ := 502
abbrev alcsAuthInvalidparam : ℤ := 503
abbrev alcsAuthAuthlistempty : ℤ := 504
abbrev alcsAuthIllegalsign : ℤ := 506

/-- The loop over the revocation list in `is_legal_key`. -/
def isRevoked (revocation : CString) (keyseq : Bytes) : Bool :=
  (List.range ((revocation.chars.length + 2) / keyseqLen)).any fun i =>
    strncmpEq keyseqLen keyseq (revocation.chars.drop (keyseqLen * i))

/-- The test for a key in `is_legal_key`. -/
def SvrKeyInfo.isFor (keyPrefix : Bytes) (node : SvrKeyInfo) : Bool :=
  node.keyprefix.chars.length = keyprefixLen ∧
    strncmpEq keyprefixLen keyPrefix node.keyprefix.chars

/-- `is_legal_key` for a prefix of `KEYPREFIX_LEN` and a sequence of `KEYSEQ_LEN` bytes: the
key, and the result code. -/
def isLegalKey (lst : AuthList) (keyPrefix keyseq : Bytes) : Option SvrKeyInfo × ℤ :=
  if lst.revocation.any fun revocation => isRevoked revocation keyseq then (none, alcsAuthRevocate)
  else if lst.lstSvr.isEmpty then (none, alcsAuthAuthlistempty)
  else
    match lst.lstSvr.find? (SvrKeyInfo.isFor keyPrefix) with
    | some node => (some node, alcsAuthOk)
    | none =>
      match lst.lstSvrGroup.find? fun gnode => gnode.keyInfo.isFor keyPrefix with
      | some gnode => (some gnode.keyInfo, alcsAuthOk)
      | none => (none, alcsAuthUnmatchprefix)

/-! ## The keys of a client -/

/-- `alcs_add_client_key`; `malloc` says whether all allocations succeed. -/
def alcsAddClientKey (malloc : Bool) (lst : AuthList) (accesskey accesstoken : CString)
    (deviceName : Option CString) : ℤ × AuthList :=
  if lst.ctlCount.toNat ≥ keyMaxcount then (coapErrorInvalidLength, lst)
  else if ¬ malloc then (coapErrorMalloc, lst)
  else
    (coapSuccess, { lst with
      lstCtl := lst.lstCtl ++ [⟨accesskey, accesstoken, deviceName⟩]
      ctlCount := lst.ctlCount + 1 })

/-- The access key starts with the prefix of a key. -/
def matchKey (accesskey keyPrefix : CString) : Bool :=
  keyPrefix.chars.length = keyprefixLen ∧ startsWith accesskey.chars keyPrefix.chars

/-- `alcs_remove_client_key`, which leaves `ctl_count` alone. -/
def alcsRemoveClientKey (lst : AuthList) (key : CString) : AuthList :=
  { lst with lstCtl := lst.lstCtl.eraseP fun node => matchKey node.accessKey key }

/-- `alcs_add_ctl_group`; `malloc` says whether all allocations succeed. -/
def alcsAddCtlGroup (malloc : Bool) (lst : AuthList) (groupid accesskey accesstoken : CString) :
    ℤ × AuthList :=
  if lst.ctlGroupCount ≥ keyMaxcount then (coapErrorInvalidLength, lst)
  else if ¬ malloc then (coapErrorMalloc, lst)
  else
    (coapSuccess, { lst with
      lstCtlGroup := lst.lstCtlGroup ++ [⟨groupid, accesskey, accesstoken⟩]
      ctlGroupCount := lst.ctlGroupCount + 1 })

/-! ## Comparing strings -/

theorem strncmpEq_iff_cChars (n : ℕ) (a b : Bytes) :
    strncmpEq n a b = true ↔ cChars (a.take n) = cChars (b.take n) := by
  induction n generalizing a b with
  | zero => simp [strncmpEq]
  | succ n ih =>
    cases a with
    | nil =>
      cases b with
      | nil => simp [strncmpEq]
      | cons y b =>
        by_cases hy : y = 0
        · simp [strncmpEq, cChars, hy]
        · simp [strncmpEq, cChars, hy, Ne.symm hy]
    | cons x a =>
      cases b with
      | nil =>
        by_cases hx : x = 0
        · simp [strncmpEq, cChars, hx]
        · simp [strncmpEq, cChars, hx]
      | cons y b =>
        by_cases hxy : x = y
        · subst hxy
          by_cases hx : x = 0
          · simp [strncmpEq, cChars, hx]
          · simpa [strncmpEq, cChars, hx] using ih a b
        by_cases hx : x = 0
        · have hy : y ≠ 0 := fun hy => hxy (hx.trans hy.symm)
          simp [strncmpEq, cChars, hx, hy, Ne.symm hy]
        · by_cases hy : y = 0
          · simp [strncmpEq, cChars, hx, hy]
          · simp [strncmpEq, cChars, hx, hy, hxy]

theorem strncmpEq_iff {a b : Bytes} (ha : 0 ∉ a) (hb : 0 ∉ b) (n : ℕ) :
    strncmpEq n a b = true ↔ a.take n = b.take n := by
  rw [strncmpEq_iff_cChars, cChars_eq_self (fun h => ha (List.mem_of_mem_take h)),
    cChars_eq_self (fun h => hb (List.mem_of_mem_take h))]

end Iotkit.Alcs
