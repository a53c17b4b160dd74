/-
# The descriptors of the connection manager (`iotx_cm.c`)

The table of `CM_MAX_FD_NUM` connections, the lock over it and the counter of connections, in the
build without the yield thread of a gateway.  The lock is destroyed when the counter of successful
connects comes down to zero, which is not when the last descriptor is closed, and without it
`_fd_is_valid` returns a value that most callers do not test for.  `fault` is a call that locks no
mutex or reads through a null pointer or a connection that was freed.
-/
import Iotkit.GuardedRun
import Iotkit.InfraDefs

namespace Iotkit.Cm

open GuardedRun Function

abbrev cmMaxFdNum : ℕ := 3

inductive Protocol
  | mqtt
  | coap
  deriving DecidableEq

/-- An `iotx_cm_connection_t`: its protocol, and the number of its allocation. -/
structure CmConnection where
  protocol : Protocol
  serial : ℕ
  deriving DecidableEq

/-- The variables of `iotx_cm.c`; `current` are `_mqtt_conncection` and `_coap_conncection`,
the connections that are not freed, and `created` counts the allocations. -/
structure CmTable where
  fdLock : Bool
  cmFd : Fin cmMaxFdNum → Option CmConnection
  initedConnNum : ℤ
  current : Protocol → Option CmConnection
  created : ℕ

def cmInit : CmTable := ⟨false, fun _ => none, 0, fun _ => none, 0⟩

inductive CmResult
  | returned (ret : ℤ)
  | fault
  deriving DecidableEq

namespace CmTable

/-- `_cm_fd[fd]`. -/
def slot (s : CmTable) (fd : ℤ) : Option CmConnection :=
  if h : 0 ≤ fd ∧ fd < cmMaxFdNum then s.cmFd ⟨fd.toNat, by omega⟩ else none

/-- The connection is not freed. -/
def Live (s : CmTable) (conn : CmConnection) : Prop := s.current conn.protocol = some conn

instance (s : CmTable) (conn : CmConnection) : Decidable (s.Live conn) :=
  inferInstanceAs (Decidable (_ = _))

end CmTable

/-! ## The functions -/

variable (s : CmTable)

def fdIsValid (fd : ℤ) : ℤ :=
  if s.fdLock = false then nullValueError
  else if (s.slot fd).isSome then 0 else -1

/-- `_get_fd`; `mutex` is whether a mutex can be had. -/
def getFd (mutex : Bool) (handle : CmConnection) : ℤ × CmTable :=
  if s.fdLock = false ∧ mutex = false then (-1, s)
  else
    match (List.finRange cmMaxFdNum).find? fun i => s.cmFd i = none with
    | some i => (i.val, { s with fdLock := true, cmFd := update s.cmFd i (some handle) })
    | none => (-1, { s with fdLock := true })

/-- `_recycle_fd`, behind its tests. -/
def recycleFd (fd : ℤ) : CmTable :=
  if h : 0 ≤ fd ∧ fd < cmMaxFdNum then
    { s with cmFd := update s.cmFd ⟨fd.toNat, by omega⟩ none }
  else s

/-- `iotx_cm_open_mqtt` and `iotx_cm_open_coap`; `memory` is whether they can allocate what
they need. -/
def openProtocol (protocol : Protocol) (memory : Bool) : Option CmConnection × CmTable :=
  match s.current protocol with
  | some conn => (some conn, s)
  | none =>
    if memory then
      (some ⟨protocol, s.created⟩,
        { s with
          current := update s.current protocol (some ⟨protocol, s.created⟩)
          created := s.created + 1 })
    else (none, s)

/-- The `close_func` of a connection. -/
def closeFunc (protocol : Protocol) : ℤ × CmTable :=
  match s.current protocol with
  | none => (nullValueError, s)
  | some _ => (0, { s with current := update s.current protocol none })

/-- `iotx_cm_open`; `none` is a protocol type that has no connection. -/
def iotxCmOpen (protocolType : Option Protocol) (memory mutex : Bool) : ℤ × CmTable :=
  match protocolType with
  | none => (-1, s)
  | some protocol =>
    match openProtocol s protocol memory with
    | (none, s) => (-1, s)
    | (some connection, s) =>
      match getFd s mutex connection with
      | (fd, s) => if fd < 0 then (-1, (closeFunc s protocol).2) else (fd, s)

/-- A call through a function of the connection of `fd`, which returns `ret`: the body of
`iotx_cm_sub`, `iotx_cm_unsub` and `iotx_cm_pub`. -/
def callConnection (fd ret : ℤ) : CmResult :=
  if fdIsValid s fd = -1 then .returned (-1)
  else if s.fdLock = false then .fault
  else
    match s.slot fd with
    | none => .fault
    | some conn => if s.Live conn then .returned ret else .fault

def iotxCmSub (fd ret : ℤ) : CmResult := callConnection s fd ret

def iotxCmUnsub (fd ret : ℤ) : CmResult := callConnection s fd ret

def iotxCmPub (fd ret : ℤ) : CmResult := callConnection s fd ret

def iotxCmConnect (fd ret : ℤ) : CmResult × CmTable :=
  match callConnection s fd ret with
  | .returned ret =>
    (.returned ret,
      if ret = 0 then { s with initedConnNum := (s.initedConnNum + 1).bmod (2 ^ 32) } else s)
  | .fault => (.fault, s)

/-- `iotx_cm_yield`; the descriptor -1 stands for all of them. -/
def iotxCmYield (fd ret : ℤ) : CmResult :=
  if s.fdLock = false then .returned nullValueError
  else if fd = -1 then
    if ∀ i, ∀ conn ∈ s.cmFd i, s.Live conn then .returned 0 else .fault
  else callConnection s fd ret

/-- The counter that `iotx_cm_close` leaves. -/
def CmTable.closedConnNum : ℤ :=
  if s.initedConnNum > 0 then s.initedConnNum - 1 else s.initedConnNum

def iotxCmClose (fd : ℤ) : CmResult × CmTable :=
  if fdIsValid s fd ≠ 0 then (.returned (-1), s)
  else
    match s.slot fd with
    | none => (.fault, s)
    | some conn =>
      if s.Live conn then
        match closeFunc { s with initedConnNum := s.closedConnNum } conn.protocol with
        | (res, s) =>
          if res ≠ 0 then (.returned (-1), s)
          else
            (.returned 0,
              { recycleFd s fd with fdLock := if s.initedConnNum = 0 then false else s.fdLock })
      else (.fault, s)

/-! ## The steps -/

/-- The calls, with what the code below the connection manager answers. -/
inductive CmOp
  | openFd (protocolType : Option Protocol) (memory mutex : Bool)
  | connect (fd ret : ℤ)
  | yield (fd ret : ℤ)
  | sub (fd ret : ℤ)
  | unsub (fd ret : ℤ)
  | pub (fd ret : ℤ)
  | close (fd : ℤ)

def cmExec : CmOp → CmResult × CmTable
  | .openFd protocolType memory mutex =>
    (.returned (iotxCmOpen s protocolType memory mutex).1,
      (iotxCmOpen s protocolType memory mutex).2)
  | .connect fd ret => iotxCmConnect s fd ret
  | .yield fd ret => (iotxCmYield s fd ret, s)
  | .sub fd ret => (iotxCmSub s fd ret, s)
  | .unsub fd ret => (iotxCmUnsub s fd ret, s)
  | .pub fd ret => (iotxCmPub s fd ret, s)
  | .close fd => iotxCmClose s fd

/-- The connection manager and the descriptors its callers hold: those that `iotx_cm_open` has
returned and that no `iotx_cm_close` has closed since. -/
structure CmSession where
  cm : CmTable
  descriptors : List ℤ

def cmStart : CmSession := ⟨cmInit, []⟩

/-- How a call that has returned changes the descriptors that are held. -/
def heldAfter (descriptors : List ℤ) : CmOp → CmResult → List ℤ
  | .openFd _ _ _, .returned fd => if 0 ≤ fd then fd :: descriptors else descriptors
  | .close fd, .returned 0 => descriptors.erase fd
  | _, _ => descriptors

def cmStep (s : CmSession) (op : CmOp) : CmSession :=
  ⟨(cmExec s.cm op).2, heldAfter s.descriptors op (cmExec s.cm op).1⟩

/-! ## Slots -/

namespace CmTable

variable {s s' : CmTable} {fd : ℤ}

theorem slot_eq_some {conn : CmConnection} (h : s.slot fd = some conn) :
    ∃ i : Fin cmMaxFdNum, (i.val : ℤ) = fd ∧ s.cmFd i = some conn := by
  unfold slot at h
  split at h
  · exact ⟨_, by simp; omega, h⟩
  · cases h

@[simp] theorem slot_val (s : CmTable) (i : Fin cmMaxFdNum) : s.slot (i.val : ℤ) = s.cmFd i := by
  unfold slot
  rw [dif_pos ⟨by omega, by exact_mod_cast i.isLt⟩]
  rfl

theorem slot_congr (h : s'.cmFd = s.cmFd) : s'.slot fd = s.slot fd := by
  unfold slot
  rw [h]

end CmTable

theorem fdIsValid_eq_zero {s : CmTable} {fd : ℤ} (h : fdIsValid s fd = 0) :
    s.fdLock = true ∧ (s.slot fd).isSome := by
  unfold fdIsValid at h
  by_cases hlock : s.fdLock = false
  · rw [if_pos hlock] at h
    exact absurd h (by decide)
  · rw [if_neg hlock] at h
    by_cases hslot : (s.slot fd).isSome
    · exact ⟨by simpa using hlock, hslot⟩
    · rw [if_neg hslot] at h
      exact absurd h (by decide)

theorem fdIsValid_of_slot {s : CmTable} {fd : ℤ} {conn : CmConnection} (hlock : s.fdLock = true)
    (hslot : s.slot fd = some conn) : fdIsValid s fd = 0 := by
  simp [fdIsValid, hlock, hslot]

theorem fdIsValid_of_free {s : CmTable} {fd : ℤ} (hlock : s.fdLock = true)
    (hslot : s.slot fd = none) : fdIsValid s fd = -1 := by
  simp [fdIsValid, hlock, hslot]

/-! ## The invariant -/

/-- The lock exists while a slot is in use, every slot in use has a connection that is not
freed, and the descriptors held are the slots in use. -/
structure CmWell (s : CmSession) : Prop where
  lock : ∀ i, s.cm.cmFd i ≠ none → s.cm.fdLock = true
  live : ∀ i conn, s.cm.cmFd i = some conn → s.cm.Live conn
  protocol_eq : ∀ protocol conn, s.cm.current protocol = some conn → conn.protocol = protocol
  nodup : s.descriptors.Nodup
  held_iff : ∀ fd, fd ∈ s.descriptors ↔ (s.cm.slot fd).isSome

/-- The calls after which everything is as it should be: a connection for which there is no
slot is in no other slot; a call other than a yield or a close finds the lock; and a
descriptor is closed only while no other slot has its connection, and, if that brings the
counter to zero, while no other slot is in use. -/
def CmAdmissible (s : CmSession) : CmOp → Prop
  | .openFd protocolType _ _ => (∀ i, s.cm.cmFd i ≠ none) →
      ∀ i, ∀ conn ∈ s.cm.cmFd i, protocolType ≠ some conn.protocol
  | .connect _ _ => s.cm.fdLock = true
  | .sub _ _ => s.cm.fdLock = true
  | .unsub _ _ => s.cm.fdLock = true
  | .pub _ _ => s.cm.fdLock = true
  | .yield _ _ => True
  | .close fd => ∀ conn ∈ s.cm.slot fd, ∀ i : Fin cmMaxFdNum, (i.val : ℤ) ≠ fd →
      s.cm.cmFd i ≠ some conn ∧ (s.cm.closedConnNum = 0 → s.cm.cmFd i = none)

theorem cmStart_well : CmWell cmStart where
  lock _ h := absurd rfl h
  live _ _ h := by cases h
  protocol_eq _ _ h := by cases h
  nodup := List.nodup_nil
  held_iff fd := by simp [cmStart, CmTable.slot, cmInit]

/-! ## Calls through a descriptor -/

variable {s : CmSession}

theorem CmWell.call_held (h : CmWell s) {fd : ℤ} (hfd : fd ∈ s.descriptors)
    (ret : ℤ) : callConnection s.cm fd ret = .returned ret := by
  obtain ⟨conn, hslot⟩ := Option.isSome_iff_exists.mp ((h.held_iff fd).mp hfd)
  obtain ⟨i, rfl, hi⟩ := CmTable.slot_eq_some hslot
  have hlock := h.lock i (by simp [hi])
  have hlive := h.live i conn hi
  simp [callConnection, fdIsValid_of_slot hlock hslot, hlock, hslot, hlive]

theorem CmWell.call_free (h : CmWell s) {fd : ℤ} (hfd : fd ∉ s.descriptors)
    (hlock : s.cm.fdLock = true) (ret : ℤ) : callConnection s.cm fd ret = .returned (-1) := by
  have hslot : s.cm.slot fd = none := by
    simpa using fun hsome => hfd ((h.held_iff fd).mpr hsome)
  rw [callConnection, if_pos (fdIsValid_of_free hlock hslot)]

theorem CmWell.close_held (h : CmWell s) {fd : ℤ} {conn : CmConnection}
    (hslot : s.cm.slot fd = some conn) :
    iotxCmClose s.cm fd = (.returned 0,
      { recycleFd s.cm fd with
        current := update s.cm.current conn.protocol none
        initedConnNum := s.cm.closedConnNum
        fdLock := if s.cm.closedConnNum = 0 then false else s.cm.fdLock }) := by
  obtain ⟨i, rfl, hi⟩ := CmTable.slot_eq_some hslot
  have hlock := h.lock i (by simp [hi])
  have hlive := h.live i conn hi
  have hcurrent : s.cm.current conn.protocol = some conn := hlive
  unfold iotxCmClose
  rw [if_neg (by rw [fdIsValid_of_slot hlock hslot]; decide), hslot]
  have hrange : (0 : ℤ) ≤ i.val ∧ (i.val : ℤ) < cmMaxFdNum := ⟨by omega, by exact_mod_cast i.isLt⟩
  simp only [if_pos hlive, closeFunc, hcurrent, recycleFd, dif_pos hrange]
  rfl

theorem CmWell.close_free (h : CmWell s) {fd : ℤ} (hfd : fd ∉ s.descriptors) :
    iotxCmClose s.cm fd = (.returned (-1), s.cm) := by
  have hne : fdIsValid s.cm fd ≠ 0 := by
    intro hzero
    exact hfd ((h.held_iff fd).mpr (fdIsValid_eq_zero hzero).2)
  rw [iotxCmClose, if_pos hne]

/-! ## Opening -/

/-- What `_get_fd` does: it takes a free slot, or there is no lock to be had or no free slot. -/
theorem getFd_cases (s : CmTable) (mutex : Bool) (handle : CmConnection) :
    (∃ i, s.cmFd i = none ∧ getFd s mutex handle = ((i.val : ℤ),
        { s with fdLock := true, cmFd := update s.cmFd i (some handle) })) ∨
      ((s.fdLock = false ∨ ∀ i, s.cmFd i ≠ none) ∧ ∃ lock, (s.fdLock = true → lock = true) ∧
        getFd s mutex handle = (-1, { s with fdLock := lock })) := by
  unfold getFd
  by_cases hmutex : s.fdLock = false ∧ mutex = false
  · rw [if_pos hmutex]
    exact .inr ⟨.inl hmutex.1, s.fdLock, id, rfl⟩
  rw [if_neg hmutex]
  cases hfind : (List.finRange cmMaxFdNum).find? fun i => s.cmFd i = none with
  | some i => exact Or.inl ⟨i, by simpa using List.find?_some hfind, rfl⟩
  | none =>
    refine .inr ⟨.inr fun i => ?_, true, fun _ => rfl, rfl⟩
    simpa using List.find?_eq_none.mp hfind i (List.mem_finRange i)

theorem openProtocol_cases (s : CmTable) (protocol : Protocol) (memory : Bool) :
    openProtocol s protocol memory = (none, s) ∨
      ∃ conn s', openProtocol s protocol memory = (some conn, s') ∧
        s'.cmFd = s.cmFd ∧ s'.fdLock = s.fdLock ∧ s'.current protocol = some conn ∧
        (s.current protocol = none → conn.protocol = protocol) ∧
        (∀ c, s.current protocol = some c → c = conn) ∧
        ∀ other, other ≠ protocol → s'.current other = s.current other := by
  unfold openProtocol
  cases hcurrent : s.current protocol with
  | some conn =>
    refine .inr ⟨conn, s, rfl, rfl, rfl, hcurrent, ?_, ?_, fun _ _ => rfl⟩
    · simp
    · simp
  | none =>
    cases memory with
    | false => exact .inl rfl
    | true =>
      refine Or.inr ⟨_, _, rfl, rfl, rfl, update_self .., fun _ => rfl, by simp, ?_⟩
      exact fun other hne => update_of_ne hne _ _

/-- The outcomes of `iotx_cm_open`: nothing is opened, or a free slot gets the connection. -/
inductive OpenOutcome (s : CmTable) (protocolType : Option Protocol) : ℤ × CmTable → Prop
  | refused (s' : CmTable) (hslots : s'.cmFd = s.cmFd) (hlock : s.fdLock = true → s'.fdLock = true)
      (hcurrent : ∀ protocol, s'.current protocol = s.current protocol ∨
        s'.current protocol = none ∧ protocolType = some protocol ∧
          (s.fdLock = false ∨ ∀ i, s.cmFd i ≠ none)) :
      OpenOutcome s protocolType (-1, s')
  | opened (i : Fin cmMaxFdNum) (conn : CmConnection) (protocol : Protocol) (s' : CmTable)
      (hfree : s.cmFd i = none)
      (hslots : s'.cmFd = update s.cmFd i (some conn)) (hlock : s'.fdLock = true)
      (hcurrent : s'.current protocol = some conn)
      (hnew : s.current protocol = none → conn.protocol = protocol)
      (hsame : ∀ c, s.current protocol = some c → c = conn)
      (hother : ∀ other, other ≠ protocol → s'.current other = s.current other) :
      OpenOutcome s protocolType ((i.val : ℤ), s')

theorem open_outcome (s : CmTable) (protocolType : Option Protocol) (memory mutex : Bool) :
    OpenOutcome s protocolType (iotxCmOpen s protocolType memory mutex) := by
  have hnothing : OpenOutcome s protocolType (-1, s) := .refused s rfl id fun _ => .inl rfl
  cases protocolType with
  | none => exact hnothing
  | some protocol =>
    unfold iotxCmOpen
    rcases openProtocol_cases s protocol memory with
      hopen | ⟨conn, s', hopen, hslots, hlock, hcurrent, hnew, hsame, hother⟩
    · simp only [hopen]
      exact hnothing
    simp only [hopen]
    rcases getFd_cases s' mutex conn with ⟨i, hfree, hget⟩ | ⟨hfull, lock, hkeep, hget⟩
    · simp only [hget]
      rw [if_neg (by omega)]
      exact .opened i conn protocol _ (hslots ▸ hfree) (by rw [hslots]) rfl hcurrent hnew
        hsame hother
    simp only [hget, closeFunc, hcurrent]
    rw [if_pos (by decide)]
    refine .refused _ hslots (fun h => hkeep (hlock ▸ h)) fun other => ?_
    by_cases hne : other = protocol
    · subst hne
      exact .inr ⟨update_self .., rfl, hlock ▸ hslots ▸ hfull⟩
    · exact .inl ((update_of_ne hne ..).trans (hother other hne))

/-! ## The steps keep the invariant -/

theorem CmTable.slot_update {s s' : CmTable} {i : Fin cmMaxFdNum} {conn : Option CmConnection}
    (h : s'.cmFd = update s.cmFd i conn) (fd : ℤ) :
    s'.slot fd = if fd = i.val then conn else s.slot fd := by
  by_cases hfd : fd = i.val
  · rw [if_pos hfd, hfd, CmTable.slot_val, h, update_self]
  rw [if_neg hfd]
  unfold CmTable.slot
  by_cases hrange : 0 ≤ fd ∧ fd < (cmMaxFdNum : ℤ)
  · rw [dif_pos hrange, dif_pos hrange, h]
    refine update_of_ne (fun heq => hfd ?_) _ _
    rw [← heq]
    exact (Int.toNat_of_nonneg hrange.1).symm
  · rw [dif_neg hrange, dif_neg hrange]

theorem CmWell.of_eq (h : CmWell s) {cm : CmTable} (hslots : cm.cmFd = s.cm.cmFd)
    (hlock : s.cm.fdLock = true → cm.fdLock = true) (hcurrent : cm.current = s.cm.current) :
    CmWell ⟨cm, s.descriptors⟩ where
  lock i hi := hlock (h.lock i (by rwa [← hslots]))
  live i conn hi := by
    have := h.live i conn (by rwa [← hslots])
    rwa [CmTable.Live, hcurrent]
  protocol_eq protocol conn hp := h.protocol_eq protocol conn (by rwa [← hcurrent])
  nodup := h.nodup
  held_iff fd := by rw [CmTable.slot_congr hslots]; exact h.held_iff fd

theorem CmWell.openFd (h : CmWell s) {protocolType : Option Protocol}
    {memory mutex : Bool} (hok : CmAdmissible s (.openFd protocolType memory mutex)) :
    CmWell (cmStep s (.openFd protocolType memory mutex)) := by
  have hout := open_outcome s.cm protocolType memory mutex
  simp only [cmStep, cmExec]
  generalize iotxCmOpen s.cm protocolType memory mutex = out at hout ⊢
  cases hout with
  | refused cm' hslots hlock hcurrent =>
    refine ⟨?_, ?_, ?_, h.nodup, ?_⟩
    · intro i hi
      exact hlock (h.lock i (by rwa [← hslots]))
    · intro i conn hi
      have hi' : s.cm.cmFd i = some conn := by rwa [← hslots]
      have hlive := h.live i conn hi'
      rcases hcurrent conn.protocol with heq | ⟨-, hproto, hfull⟩
      · exact heq.trans hlive
      · -- the connection that was freed stands in no slot
        rcases hfull with hnolock | hfull
        · have := h.lock i (by simp [hi'])
          simp [hnolock] at this
        · exact absurd hproto (hok hfull i conn hi')
    · intro protocol conn hp
      have hp' : cm'.current protocol = some conn := hp
      rcases hcurrent protocol with heq | ⟨hnone, -, -⟩
      · exact h.protocol_eq protocol conn (heq ▸ hp')
      · rw [hnone] at hp'
        cases hp'
    · intro fd
      have hslot : cm'.slot fd = s.cm.slot fd := CmTable.slot_congr hslots
      simpa [heldAfter, hslot] using h.held_iff fd
  | opened i conn protocol cm' hfree hslots hlock hcurrent hnew hsame hother =>
    have hproto : conn.protocol = protocol := by
      cases hold : s.cm.current protocol with
      | none => exact hnew hold
      | some c =>
        obtain rfl := hsame c hold
        exact h.protocol_eq protocol c hold
    -- a slot that was free belongs to no descriptor
    have hfresh : (i.val : ℤ) ∉ s.descriptors := by
      rw [h.held_iff, CmTable.slot_val, hfree]
      simp
    have hheld : heldAfter s.descriptors (.openFd protocolType memory mutex)
        (.returned (i.val : ℤ)) = (i.val : ℤ) :: s.descriptors := by
      simp [heldAfter]
    refine ⟨fun _ _ => hlock, ?_, ?_, ?_, ?_⟩
    · intro j c hj
      have hj' : update s.cm.cmFd i (some conn) j = some c := hslots ▸ hj
      by_cases hij : j = i
      · subst hij
        rw [update_self] at hj'
        cases hj'
        exact (congrArg cm'.current hproto).trans hcurrent
      rw [update_of_ne hij] at hj'
      have hlive : s.cm.current c.protocol = some c := h.live j c hj'
      -- the connection of a protocol stands in all of its slots
      by_cases hsamep : c.protocol = protocol
      · obtain rfl := hsame c (hsamep ▸ hlive)
        exact (congrArg cm'.current hsamep).trans hcurrent
      · exact (hother _ hsamep).trans hlive
    · intro p c hp
      have hp' : cm'.current p = some c := hp
      by_cases hsamep : p = protocol
      · subst hsamep
        rw [hcurrent] at hp'
        cases hp'
        exact hproto
      · exact h.protocol_eq p c (hother p hsamep ▸ hp')
    · simp only [hheld]
      exact List.nodup_cons.mpr ⟨hfresh, h.nodup⟩
    · intro fd
      simp only [hheld, List.mem_cons]
      rw [CmTable.slot_update hslots, h.held_iff]
      by_cases hfd : fd = i.val
      · simp [hfd]
      · simp [hfd]

theorem CmWell.connect (h : CmWell s) (fd ret : ℤ) :
    CmWell (cmStep s (.connect fd ret)) := by
  simp only [cmStep, cmExec, iotxCmConnect]
  cases callConnection s.cm fd ret with
  | returned ret =>
    refine h.of_eq ?_ ?_ ?_
    · dsimp only
      split <;> rfl
    · dsimp only
      split <;> exact id
    · dsimp only
      split <;> rfl
  | fault => exact h.of_eq rfl id rfl

theorem CmWell.close (h : CmWell s) {fd : ℤ} (hok : CmAdmissible s (.close fd)) :
    CmWell (cmStep s (.close fd)) := by
  by_cases hfd : fd ∈ s.descriptors
  · obtain ⟨conn, hslot⟩ := Option.isSome_iff_exists.mp ((h.held_iff fd).mp hfd)
    have hclose := h.close_held hslot
    obtain ⟨i, rfl, hi⟩ := CmTable.slot_eq_some hslot
    have hrest := hok conn hslot
    have hrange : (0 : ℤ) ≤ i.val ∧ (i.val : ℤ) < cmMaxFdNum := ⟨by omega, by exact_mod_cast i.isLt⟩
    have hslots : (recycleFd s.cm i.val).cmFd = update s.cm.cmFd i none := by
      rw [recycleFd, dif_pos hrange]
      rfl
    simp only [cmStep, cmExec, hclose, heldAfter]
    refine ⟨?_, ?_, ?_, h.nodup.erase _, ?_⟩
    · intro j hj
      simp only [hslots] at hj ⊢
      by_cases hij : j = i
      · rw [hij, update_self] at hj
        exact absurd rfl hj
      · rw [update_of_ne hij] at hj
        -- the lock goes only if all other slots are free
        have hne : (j.val : ℤ) ≠ i.val := fun heq => hij (Fin.ext (by exact_mod_cast heq))
        rw [if_neg fun hzero => hj ((hrest j hne).2 hzero)]
        exact h.lock j hj
    · intro j c hj
      simp only [hslots] at hj
      by_cases hij : j = i
      · rw [hij, update_self] at hj
        cases hj
      rw [update_of_ne hij] at hj
      have hne : (j.val : ℤ) ≠ i.val := fun heq => hij (Fin.ext (by exact_mod_cast heq))
      have hlive : s.cm.current c.protocol = some c := h.live j c hj
      have hlive' : s.cm.current conn.protocol = some conn := h.live i conn hi
      -- no other slot has the connection that is closed
      have hother : c.protocol ≠ conn.protocol := by
        intro heq
        rw [heq, hlive'] at hlive
        exact (hrest j hne).1 (hj.trans hlive.symm)
      exact (update_of_ne hother ..).trans hlive
    · intro p c hp
      have hp' : update s.cm.current conn.protocol none p = some c := hp
      by_cases hsame : p = conn.protocol
      · simp [hsame] at hp'
      · rw [update_of_ne hsame] at hp'
        exact h.protocol_eq p c hp'
    · intro fd
      rw [CmTable.slot_update (by exact hslots), h.nodup.mem_erase_iff, h.held_iff]
      by_cases hfd' : fd = i.val
      · simp [hfd']
      · simp [hfd']
  · have hclose := h.close_free hfd
    simp only [cmStep, cmExec, hclose, heldAfter]
    exact h

theorem CmWell.step (s : CmSession) (op : CmOp) (h : CmWell s) (hok : CmAdmissible s op) :
    CmWell (cmStep s op) := by
  cases op with
  | openFd protocolType memory mutex => exact h.openFd hok
  | connect fd ret => exact h.connect fd ret
  | yield fd ret => exact h.of_eq rfl id rfl
  | sub fd ret => exact h.of_eq rfl id rfl
  | unsub fd ret => exact h.of_eq rfl id rfl
  | pub fd ret => exact h.of_eq rfl id rfl
  | close fd => exact h.close hok

/-! ## The descriptors over a run -/

def CmOp.fd? : CmOp → Option ℤ
  | .openFd _ _ _ => none
  | .connect fd _ => some fd
  | .yield fd _ => some fd
  | .sub fd _ => some fd
  | .unsub fd _ => some fd
  | .pub fd _ => some fd
  | .close fd => some fd

/-- What a call returns when it reaches the connection of its descriptor. -/
def CmOp.reached : CmOp → ℤ
  | .openFd _ _ _ => 0
  | .connect _ ret => ret
  | .yield _ ret => ret
  | .sub _ ret => ret
  | .unsub _ ret => ret
  | .pub _ ret => ret
  | .close _ => 0

theorem CmWell.neg_one_not_held (h : CmWell s) : (-1 : ℤ) ∉ s.descriptors := by
  rw [h.held_iff]
  simp [CmTable.slot]

theorem CmWell.exec_held (h : CmWell s) {op : CmOp} {fd : ℤ}
    (hop : op.fd? = some fd) (hfd : fd ∈ s.descriptors) :
    (cmExec s.cm op).1 = .returned op.reached := by
  cases op with
  | openFd protocolType memory mutex => cases hop
  | connect fd' ret =>
    obtain rfl : fd' = fd := Option.some.inj hop
    simp [cmExec, iotxCmConnect, h.call_held hfd, CmOp.reached]
  | yield fd' ret =>
    obtain rfl : fd' = fd := Option.some.inj hop
    have hne : fd' ≠ -1 := fun heq => h.neg_one_not_held (heq ▸ hfd)
    obtain ⟨conn, hslot⟩ := Option.isSome_iff_exists.mp ((h.held_iff fd').mp hfd)
    obtain ⟨i, -, hi⟩ := CmTable.slot_eq_some hslot
    have hlock := h.lock i (by simp [hi])
    simp [cmExec, iotxCmYield, hlock, hne, h.call_held hfd, CmOp.reached]
  | sub fd' ret =>
    obtain rfl : fd' = fd := Option.some.inj hop
    exact h.call_held hfd ret
  | unsub fd' ret =>
    obtain rfl : fd' = fd := Option.some.inj hop
    exact h.call_held hfd ret
  | pub fd' ret =>
    obtain rfl : fd' = fd := Option.some.inj hop
    exact h.call_held hfd ret
  | close fd' =>
    obtain rfl : fd' = fd := Option.some.inj hop
    obtain ⟨conn, hslot⟩ := Option.isSome_iff_exists.mp ((h.held_iff fd').mp hfd)
    exact congrArg Prod.fst (h.close_held hslot)

/-- A call with a descriptor that is not held is refused and changes nothing; for a yield,
-1 is no descriptor but stands for all of them. -/
theorem CmWell.exec_free (h : CmWell s) {op : CmOp} {fd : ℤ}
    (hop : op.fd? = some fd) (hfd : fd ∉ s.descriptors) (hok : CmAdmissible s op)
    (hall : ∀ ret, op ≠ .yield (-1) ret) :
    ∃ ret < 0, cmExec s.cm op = (.returned ret, s.cm) := by
  cases op with
  | openFd protocolType memory mutex => cases hop
  | connect fd' ret =>
    obtain rfl : fd' = fd := Option.some.inj hop
    exact ⟨-1, by decide, by simp [cmExec, iotxCmConnect, h.call_free hfd hok]⟩
  | yield fd' ret =>
    obtain rfl : fd' = fd := Option.some.inj hop
    by_cases hlock : s.cm.fdLock = false
    · exact ⟨nullValueError, by decide, by simp [cmExec, iotxCmYield, hlock]⟩
    · have hne : fd' ≠ -1 := fun heq => hall ret (by rw [heq])
      refine ⟨-1, by decide, ?_⟩
      simp [cmExec, iotxCmYield, hlock, hne, h.call_free hfd (by simpa using hlock)]
  | sub fd' ret =>
    obtain rfl : fd' = fd := Option.some.inj hop
    exact ⟨-1, by decide, by simp [cmExec, iotxCmSub, h.call_free hfd hok]⟩
  | unsub fd' ret =>
    obtain rfl : fd' = fd := Option.some.inj hop
    exact ⟨-1, by decide, by simp [cmExec, iotxCmUnsub, h.call_free hfd hok]⟩
  | pub fd' ret =>
    obtain rfl : fd' = fd := Option.some.inj hop
    exact ⟨-1, by decide, by simp [cmExec, iotxCmPub, h.call_free hfd hok]⟩
  | close fd' =>
    obtain rfl : fd' = fd := Option.some.inj hop
    exact ⟨-1, by decide, h.close_free hfd⟩

theorem CmWell.yield_all (h : CmWell s) (ret : ℤ) :
    iotxCmYield s.cm (-1) ret ≠ .fault := by
  unfold iotxCmYield
  by_cases hlock : s.cm.fdLock = false
  · rw [if_pos hlock]
    exact CmResult.noConfusion
  · have hlive : ∀ i, ∀ conn ∈ s.cm.cmFd i, s.cm.Live conn := h.live
    rw [if_neg hlock, if_pos rfl, if_pos hlive]
    exact CmResult.noConfusion

/-- **The descriptors.**  In every run of admissible calls: held descriptors are different slots,
and an open returns one that is not held; a call with another one is refused and changes nothing;
the lock exists while a slot is in use; and a call with a held descriptor reaches its connection,
whatever was closed or failed to connect before. -/
theorem cm_descriptors (ops : List CmOp) (hok : AllSteps cmStep CmAdmissible cmStart ops) :
    let s := ops.foldl cmStep cmStart
    (s.descriptors.Nodup ∧ ∀ protocolType memory mutex,
        0 ≤ (iotxCmOpen s.cm protocolType memory mutex).1 →
        (iotxCmOpen s.cm protocolType memory mutex).1 < cmMaxFdNum ∧
          (iotxCmOpen s.cm protocolType memory mutex).1 ∉ s.descriptors) ∧
      (∀ op fd, op.fd? = some fd → fd ∉ s.descriptors → CmAdmissible s op →
        (∀ ret, op ≠ .yield (-1) ret) → ∃ ret < 0, cmExec s.cm op = (.returned ret, s.cm)) ∧
      (∀ i, s.cm.cmFd i ≠ none → s.cm.fdLock = true) ∧
      (∀ op fd, op.fd? = some fd → fd ∈ s.descriptors →
        (cmExec s.cm op).1 = .returned op.reached) ∧
      ∀ ret, iotxCmYield s.cm (-1) ret ≠ .fault := by
  intro s
  have h : CmWell s := inv_of_allSteps CmWell.step ops cmStart_well hok
  refine ⟨⟨h.nodup, ?_⟩, fun op fd hop hfd hadm hall => h.exec_free hop hfd hadm hall, h.lock,
    fun op fd hop hfd => h.exec_held hop hfd, h.yield_all⟩
  intro protocolType memory mutex hpos
  have hout := open_outcome s.cm protocolType memory mutex
  generalize iotxCmOpen s.cm protocolType memory mutex = out at hout hpos ⊢
  cases hout with
  | refused => exact absurd (show (0 : ℤ) ≤ -1 from hpos) (by decide)
  | opened i conn protocol cm' hfree _ _ _ _ _ _ =>
    have hlt : (i.val : ℤ) < cmMaxFdNum := by exact_mod_cast i.isLt
    refine ⟨hlt, ?_⟩
    rw [h.held_iff, CmTable.slot_val, hfree]
    simp

/-- An MQTT and a CoAP connection are opened, both are connected, and the CoAP connection is
closed: the MQTT descriptor is held, and a publication reaches its connection. -/
theorem cm_descriptors_two :
    let ops : List CmOp :=
      [.openFd (some .mqtt) true true, .openFd (some .coap) true true, .connect 0 0,
        .connect 1 0, .close 1]
    let s := ops.foldl cmStep cmStart
    s.descriptors = [0] ∧ (cmExec s.cm (.pub 0 7)).1 = .returned 7 := by
  intro ops s
  refine ⟨by decide, (cm_descriptors ops ?_).2.2.2.1 (.pub 0 7) 0 rfl (by decide)⟩
  refine ⟨fun hfull => absurd rfl (hfull 0), fun hfull => absurd rfl (hfull 1), rfl, rfl, ?_,
    trivial⟩
  rintro conn hconn i hi
  obtain rfl : conn = ⟨.coap, 1⟩ := by
    have : some (⟨.coap, 1⟩ : CmConnection) = some conn := hconn
    exact (Option.some.inj this).symm
  revert hi
  fin_cases i <;> decide

/-- Two connections are opened and one is connected; closing the other one destroys the lock,
and a publication over the first one fails.  A descriptor that was never opened is not
refused before the lock exists.  A protocol that is opened twice loses its connection with
the first of its descriptors. -/
theorem cm_descriptors_broken :
    (let ops : List CmOp :=
      [.openFd (some .mqtt) true true, .openFd (some .coap) true true, .connect 0 0, .close 1]
     let s := ops.foldl cmStep cmStart
     s.descriptors = [0] ∧ s.cm.fdLock = false ∧ (cmExec s.cm (.pub 0 7)).1 = .fault) ∧
    (cmStart.descriptors = [] ∧ (cmExec cmStart.cm (.pub 0 7)).1 = .fault) ∧
    (let ops : List CmOp :=
      [.openFd (some .mqtt) true true, .openFd (some .mqtt) true true, .connect 0 0,
        .connect 1 0, .close 0]
     let s := ops.foldl cmStep cmStart
     s.descriptors = [1] ∧ (cmExec s.cm (.pub 1 7)).1 = .fault) := by
  decide

end Iotkit.Cm
