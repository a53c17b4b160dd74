/-
# When authentications and messages over HTTP come to an end (`iotx_http_api.c`)

The calls that one call makes follow from the answers of the server alone: a message that is
answered, an authentication that is refused, or one that brings two more messages.  Counting the
messages that are still to be sent, a call returns exactly when an authentication is refused or
no message is left.
-/
import Iotkit.HttpApi

namespace Iotkit.HttpApi

open LibC Option

/-! ## The answers of the server -/

/-- The attempt is an authentication: the one before was a message with an expired token.  The
attempts are counted from `n` on, and the first one is of the given kind. -/
def isAuth (env : HttpEnv) (auth : Bool) (n : ℕ) : ℕ → Bool
  | 0 => auth
  | i + 1 => !isAuth env auth n i && (env.attempt (n + i)).expired

/-- What an attempt does to the number of messages that are to be sent: an authentication counts
as the message that needed it, and a successful one stands for its reports. -/
def change (env : HttpEnv) (auth : Bool) (a : HttpAttempt) : ℤ :=
  if auth = true then env.reports a - 1 else if a.expired = true then 0 else -1

/-- The messages that are still to be sent after some attempts. -/
def owed (env : HttpEnv) (auth : Bool) (n : ℕ) : ℕ → ℤ
  | 0 => 1
  | i + 1 => owed env auth n i + change env (isAuth env auth n i) (env.attempt (n + i))

/-- The attempt is an authentication that brings no token. -/
def Refused (env : HttpEnv) (auth : Bool) (n i : ℕ) : Prop :=
  isAuth env auth n i = true ∧ (env.attempt (n + i)).granted = none

/-- The attempt finds no memory for the request of an authentication. -/
def Starves (env : HttpEnv) (auth : Bool) (n i : ℕ) : Prop :=
  isAuth env auth n i = true ∧ (env.attempt (n + i)).reqMalloc = false

/-- The server relents: at some attempt, the last of those that have the memory they need, it
refuses an authentication, or no message is left to be sent. -/
def Relents (env : HttpEnv) (auth : Bool) (n : ℕ) : Prop :=
  ∃ last, (∀ i ≤ last, ¬ Starves env auth n i) ∧
    (Refused env auth n last ∨ owed env auth n (last + 1) ≤ 0)

/-! ## The calls of a call -/

/-- The attempts of one call, from the first to behind the last, and whether the device is
authenticated in the end. -/
inductive Run (env : HttpEnv) : Bool → ℕ → ℕ → Bool → Prop
  | answered {n : ℕ} (h : (env.attempt n).expired = false) : Run env false n (n + 1) true
  | expired {n n' : ℕ} {authed : Bool} (h : (env.attempt n).expired = true)
      (hauth : Run env true (n + 1) n' authed) : Run env false n n' authed
  | refused {n : ℕ} (hreq : (env.attempt n).reqMalloc = true)
      (h : (env.attempt n).granted = none) : Run env true n (n + 1) false
  | unreported {n : ℕ} {token : CString} (hreq : (env.attempt n).reqMalloc = true)
      (h : (env.attempt n).granted = some token) (hreports : env.reports (env.attempt n) = 0) :
      Run env true n (n + 1) true
  | devinfo {n n' : ℕ} {token : CString} {authed : Bool}
      (hreq : (env.attempt n).reqMalloc = true) (h : (env.attempt n).granted = some token)
      (hreports : 0 < env.reports (env.attempt n)) (hsend : Run env false (n + 1) n' authed)
      (hlast : env.reports (env.attempt n) = 1 ∨ authed = false) : Run env true n n' authed
  | firmware {n n' n'' : ℕ} {token : CString} {authed : Bool}
      (hreq : (env.attempt n).reqMalloc = true) (h : (env.attempt n).granted = some token)
      (hreports : env.reports (env.attempt n) = 2) (hsend : Run env false (n + 1) n' true)
      (hsend' : Run env false n' n'' authed) : Run env true n n'' authed

variable {env : HttpEnv}

theorem reports_eq_zero {a : HttpAttempt} (h : a.devinfoMalloc = false) : env.reports a = 0 :=
  if_pos h

theorem reports_of_devinfo {a : HttpAttempt} (h : a.devinfoMalloc = true) :
    env.reports a = if env.firmwareVersion = false then 1 else 2 := by
  rw [HttpEnv.reports, h, if_neg Bool.noConfusion]

theorem devinfo_of_reports {a : HttpAttempt} (h : 0 < env.reports a) : a.devinfoMalloc = true := by
  by_contra hno
  rw [reports_eq_zero (Bool.not_eq_true _ ▸ hno)] at h
  exact absurd h (lt_irrefl 0)

theorem reports_le (env : HttpEnv) (a : HttpAttempt) : env.reports a ≤ 2 := by
  unfold HttpEnv.reports
  split_ifs <;> omega

theorem firmware_unauthed (fuel : ℕ) (st : HttpState) (h : st.isAuthed = false) :
    iotxReportFirmwareVersion (iotHttpSendMessage env (fuel + 1) reportParam)
      env.firmwareVersion st = some (-1, st) := by
  have hsends : sends env reportParam st = false := by
    rw [sends, h, Bool.and_false, Bool.false_and]
  unfold iotxReportFirmwareVersion
  split_ifs
  · rfl
  · rw [iotHttpSendMessage, sendMessage_not_sends hsends]
    rfl

/-- **From calls to runs.**  What returns has made the attempts of a run. -/
theorem run_of_calls (hhandle : env.handle = true) (fuel : ℕ) :
    (∀ st r, iotHttpDeviceNameAuth env fuel st = some r →
      Run env true st.attempts r.2.attempts r.2.isAuthed) ∧
    (∀ msg st r, sends env msg st = true → iotHttpSendMessage env fuel msg st = some r →
      Run env false st.attempts r.2.attempts r.2.isAuthed) := by
  induction fuel with
  | zero =>
    constructor
    · intro st r h
      rw [iotHttpDeviceNameAuth] at h
      exact absurd h.symm (some_ne_none r)
    · intro msg st r _ h
      rw [iotHttpSendMessage] at h
      exact absurd h.symm (some_ne_none r)
  | succ fuel ih =>
    obtain ⟨ihauth, ihsend⟩ := ih
    constructor
    · intro st r h
      rw [iotHttpDeviceNameAuth] at h
      obtain ⟨hreq, ⟨hgranted, hdone, -⟩ | ⟨token, r₀, hgranted, hreports, rfl⟩⟩ :=
        deviceNameAuth_cases hhandle h
      · rw [hdone.attempts, hdone.isAuthed]
        exact .refused hreq hgranted
      show Run env true st.attempts r₀.2.attempts r₀.2.isAuthed
      rcases authReports_cases hreports with ⟨hdevinfo, rfl⟩ | ⟨hdevinfo, r₁, hfirst, hsecond⟩
      · exact .unreported hreq hgranted (reports_eq_zero hdevinfo)
      have hrun := ihsend reportParam _ r₁ (sends_report hhandle _) hfirst
      have hnumber : env.reports (env.attempt st.attempts) =
          if env.firmwareVersion = false then 1 else 2 :=
        reports_of_devinfo hdevinfo
      have hpos : 0 < env.reports (env.attempt st.attempts) := by
        rw [hnumber]
        split_ifs <;> omega
      rcases hsecond with ⟨hversion, rfl⟩ | ⟨hversion, r₂, hsent, rfl⟩
      · rw [if_pos hversion] at hnumber
        exact .devinfo hreq hgranted hpos hrun (.inl hnumber)
      have hsends : sends env reportParam (r₁.2.free (st.authed token).blocks) = r₁.2.isAuthed :=
        sends_report hhandle _
      cases hauthed : r₁.2.isAuthed with
      | false =>
        rw [hauthed] at hrun hsends
        cases fuel with
        | zero =>
          rw [iotHttpSendMessage] at hsent
          exact absurd hsent.symm (some_ne_none r₂)
        | succ fuel =>
          rw [iotHttpSendMessage, sendMessage_not_sends hsends] at hsent
          rw [← Option.some.inj hsent]
          show Run env true st.attempts r₁.2.attempts r₁.2.isAuthed
          rw [hauthed]
          exact .devinfo hreq hgranted hpos hrun (.inr rfl)
      | true =>
        rw [hauthed] at hrun hsends
        rw [hversion, if_neg Bool.noConfusion] at hnumber
        exact .firmware hreq hgranted hnumber hrun
          (ihsend reportParam (r₁.2.free (st.authed token).blocks) r₂ hsends hsent)
    · intro msg st r hsends h
      rw [iotHttpSendMessage] at h
      rcases sendMessage_cases hsends h with ⟨hexpired, hdone, -⟩ | ⟨hexpired, r₀, hauth, rfl⟩
      · have hauthed : st.isAuthed = true := by
          rw [sends, Bool.and_eq_true, Bool.and_eq_true] at hsends
          exact hsends.1.2
        rw [hdone.attempts, hdone.isAuthed, hauthed]
        exact .answered hexpired
      · obtain ⟨hkept, -, hattempts, -⟩ := freeHeader_kept r₀.2
        show Run env false st.attempts r₀.2.freeHeader.attempts r₀.2.freeHeader.isAuthed
        rw [hkept, hattempts]
        exact .expired hexpired (ihauth st.outdated r₀ hauth)

/-- The calls of one kind return from an attempt on, with what they leave behind. -/
def Returns (env : HttpEnv) (fuel n n' : ℕ) (authed : Bool) : Bool → Prop
  | true => ∀ st : HttpState, st.attempts = n →
      ∃ r, iotHttpDeviceNameAuth env fuel st = some r ∧ r.2.attempts = n' ∧ r.2.isAuthed = authed
  | false => ∀ (msg : Option HttpMessageParam) (st : HttpState), sends env msg st = true →
      st.attempts = n → ∃ r, iotHttpSendMessage env fuel msg st = some r ∧
        r.2.attempts = n' ∧ r.2.isAuthed = authed

variable {n : ℕ} {authed : Bool}

theorem devinfo_returns (hhandle : env.handle = true) {fuel n' : ℕ}
    (h : Returns env fuel (n + 1) n' authed false) {st : HttpState} (hst : st.attempts = n)
    (token : CString) :
    ∃ r, iotHttpSendMessage env fuel reportParam (st.authed token).malloc = some r ∧
      r.2.attempts = n' ∧ r.2.isAuthed = authed :=
  h reportParam _ (sends_report hhandle _) (by rw [← hst]; rfl)

/-- **From runs to calls.**  A run is made by a call that returns. -/
theorem calls_of_run (hhandle : env.handle = true) {auth : Bool} {n' : ℕ}
    (h : Run env auth n n' authed) :
    ∃ bound, ∀ fuel, bound ≤ fuel → Returns env fuel n n' authed auth := by
  induction h with
  | answered h =>
    refine ⟨1, fun fuel hfuel msg st hsends hst => ?_⟩
    obtain ⟨fuel, rfl⟩ := Nat.exists_eq_add_of_le' hfuel
    subst hst
    obtain ⟨r, hr, hdone, -⟩ := sendMessage_other hsends h (iotHttpDeviceNameAuth env fuel)
    rw [sends, Bool.and_eq_true, Bool.and_eq_true] at hsends
    exact ⟨r, hr, hdone.attempts, hdone.isAuthed.trans hsends.1.2⟩
  | expired h _ ih =>
    obtain ⟨bound, ih⟩ := ih
    refine ⟨bound + 1, fun fuel hfuel msg st hsends hst => ?_⟩
    obtain ⟨fuel, rfl⟩ := Nat.exists_eq_add_of_le' hfuel
    subst hst
    obtain ⟨r, hr, hattempts, hauthed⟩ := ih (fuel + bound) (Nat.le_add_left _ _) st.outdated rfl
    obtain ⟨hkept, -, hattempts', -⟩ := freeHeader_kept r.2
    refine ⟨((env.attempt st.attempts).recv, r.2.freeHeader), ?_, hattempts'.trans hattempts,
      hkept.trans hauthed⟩
    show sendMessage env (iotHttpDeviceNameAuth env (fuel + bound)) msg st = _
    rw [sendMessage_expired hsends h, hr]
    rfl
  | refused hreq h =>
    refine ⟨1, fun fuel hfuel st hst => ?_⟩
    obtain ⟨fuel, rfl⟩ := Nat.exists_eq_add_of_le' hfuel
    subst hst
    obtain ⟨r, hr, hdone, -⟩ := deviceNameAuth_other hhandle hreq h
      (iotHttpSendMessage env fuel reportParam)
    exact ⟨r, hr, hdone.attempts, hdone.isAuthed⟩
  | @unreported n token hreq h hreports =>
    refine ⟨1, fun fuel hfuel st hst => ?_⟩
    obtain ⟨fuel, rfl⟩ := Nat.exists_eq_add_of_le' hfuel
    subst hst
    have hdevinfo : (env.attempt st.attempts).devinfoMalloc = false := by
      by_contra hyes
      rw [reports_of_devinfo (Bool.not_eq_false _ ▸ hyes)] at hreports
      split_ifs at hreports
    refine ⟨(failReturn, ((st.authed token).free st.blocks).free (st.blocks + 1)), ?_, rfl, rfl⟩
    show deviceNameAuth env (iotHttpSendMessage env fuel reportParam) st = _
    rw [deviceNameAuth_granted hhandle hreq h, authReports_none hdevinfo]
    rfl
  | @devinfo n n' token authed hreq h hreports _ hlast ih =>
    obtain ⟨bound, ih⟩ := ih
    refine ⟨bound + 2, fun fuel hfuel st hst => ?_⟩
    obtain ⟨fuel, rfl⟩ := Nat.exists_eq_add_of_le' hfuel
    have hdevinfo := devinfo_of_reports hreports
    obtain ⟨r, hr, hattempts, hauthed⟩ := devinfo_returns hhandle
      (ih (fuel + (bound + 1)) (by omega)) hst token
    subst hst
    have hfirmware : ∃ ret, iotxReportFirmwareVersion
        (iotHttpSendMessage env (fuel + (bound + 1)) reportParam) env.firmwareVersion
        (r.2.free (st.authed token).blocks) = some (ret, r.2.free (st.authed token).blocks) := by
      rcases hlast with hone | rfl
      · refine ⟨failReturn, if_pos ?_⟩
        by_contra hyes
        rw [reports_of_devinfo hdevinfo, if_neg hyes] at hone
        exact absurd hone (by decide)
      · exact ⟨-1, firmware_unauthed (fuel + bound) _ hauthed⟩
    obtain ⟨ret, hret⟩ := hfirmware
    refine ⟨(ret, ((r.2.free (st.authed token).blocks).free st.blocks).free (st.blocks + 1)),
      ?_, hattempts, hauthed⟩
    show deviceNameAuth env (iotHttpSendMessage env (fuel + (bound + 1)) reportParam) st = _
    rw [deviceNameAuth_granted hhandle hreq h, authReports_some hdevinfo, hr, bind_some,
      hret]
    rfl
  | @firmware n n' n'' token authed hreq h hreports _ _ ih ih' =>
    obtain ⟨bound, ih⟩ := ih
    obtain ⟨bound', ih'⟩ := ih'
    refine ⟨bound + bound' + 1, fun fuel hfuel st hst => ?_⟩
    obtain ⟨fuel, rfl⟩ := Nat.exists_eq_add_of_le' hfuel
    have hdevinfo := devinfo_of_reports (hreports ▸ zero_lt_two)
    have hversion : env.firmwareVersion = true := by
      by_contra hno
      rw [reports_of_devinfo hdevinfo, if_pos (Bool.not_eq_true _ ▸ hno)] at hreports
      exact absurd hreports (by decide)
    obtain ⟨r, hr, hattempts, hauthed⟩ := devinfo_returns hhandle
      (ih (fuel + (bound + bound')) (by omega)) hst token
    have hsends : sends env reportParam (r.2.free (st.authed token).blocks) = true := by
      rw [sends_report hhandle]
      exact hauthed
    obtain ⟨r', hr', hattempts', hauthed'⟩ := ih' (fuel + (bound + bound')) (by omega)
      reportParam (r.2.free (st.authed token).blocks) hsends hattempts
    subst hst
    refine ⟨(if r'.1 < 0 then r'.1 else successReturn,
      (r'.2.free st.blocks).free (st.blocks + 1)), ?_, hattempts', hauthed'⟩
    show deviceNameAuth env (iotHttpSendMessage env (fuel + (bound + bound')) reportParam) st = _
    rw [deviceNameAuth_granted hhandle hreq h, authReports_some hdevinfo, hr, bind_some,
      iotxReportFirmwareVersion, hversion, if_neg Bool.noConfusion, hr']
    rfl

/-! ## Counting -/

theorem isAuth_add (env : HttpEnv) (auth : Bool) (n k i : ℕ) :
    isAuth env auth n (k + i) = isAuth env (isAuth env auth n k) (n + k) i := by
  induction i with
  | zero => rfl
  | succ i ih =>
    rw [← add_assoc, isAuth, ih, isAuth, add_assoc]

theorem owed_add (env : HttpEnv) (auth : Bool) (n k i : ℕ) :
    owed env auth n (k + i) = owed env auth n k + owed env (isAuth env auth n k) (n + k) i - 1 := by
  induction i with
  | zero =>
    show owed env auth n k = owed env auth n k + 1 - 1
    ring
  | succ i ih =>
    rw [← add_assoc, owed, ih, isAuth_add, owed, add_assoc]
    ring

theorem starves_add (env : HttpEnv) (auth : Bool) (n k i : ℕ) :
    Starves env auth n (k + i) ↔ Starves env (isAuth env auth n k) (n + k) i := by
  rw [Starves, Starves, isAuth_add, add_assoc]

theorem refused_add (env : HttpEnv) (auth : Bool) (n k i : ℕ) :
    Refused env auth n (k + i) ↔ Refused env (isAuth env auth n k) (n + k) i := by
  rw [Refused, Refused, isAuth_add, add_assoc]

theorem owed_one (env : HttpEnv) (auth : Bool) (n : ℕ) :
    owed env auth n 1 = 1 + change env auth (env.attempt n) := rfl

theorem isAuth_one (env : HttpEnv) (auth : Bool) (n : ℕ) :
    isAuth env auth n 1 = (!auth && (env.attempt n).expired) := rfl

/-- What some attempts have come to: those that are needed find memory, and either no
authentication is refused, the next attempt is a message and some are left, or one is. -/
structure Stretch (env : HttpEnv) (auth : Bool) (n len : ℕ) (left : ℤ) (authed : Bool) : Prop where
  fed : ∀ i < len, ¬ Starves env auth n i
  settled : authed = true → (∀ i < len, ¬ Refused env auth n i) ∧
    isAuth env auth n len = false ∧ owed env auth n len = left
  refused : authed = false → ∃ i < len, Refused env auth n i

theorem Stretch.after (auth : Bool) {k len : ℕ} (hfed : ∀ i < k, ¬ Starves env auth n i)
    (hkept : ∀ i < k, ¬ Refused env auth n i)
    (h : Stretch env (isAuth env auth n k) (n + k) len 0 authed) :
    Stretch env auth n (k + len) (owed env auth n k - 1) authed := by
  refine ⟨fun i hi => ?_, fun hauthed => ?_, fun hauthed => ?_⟩
  · rcases lt_or_ge i k with hlt | hge
    · exact hfed i hlt
    · obtain ⟨j, rfl⟩ := Nat.exists_eq_add_of_le hge
      rw [starves_add]
      exact h.fed j (by omega)
  · obtain ⟨hnone, hmessage, hleft⟩ := h.settled hauthed
    refine ⟨fun i hi => ?_, ?_, ?_⟩
    · rcases lt_or_ge i k with hlt | hge
      · exact hkept i hlt
      · obtain ⟨j, rfl⟩ := Nat.exists_eq_add_of_le hge
        rw [refused_add]
        exact hnone j (by omega)
    · rw [isAuth_add, hmessage]
    · rw [owed_add, hleft]
      ring
  · obtain ⟨j, hj, hrefused⟩ := h.refused hauthed
    exact ⟨k + j, by omega, (refused_add env auth n k j).mpr hrefused⟩

theorem first_kept (env : HttpEnv) (auth : Bool) (n : ℕ)
    (h : auth = true → (env.attempt n).reqMalloc = true ∧ (env.attempt n).granted ≠ none) :
    (∀ i < 1, ¬ Starves env auth n i) ∧ ∀ i < 1, ¬ Refused env auth n i := by
  refine ⟨fun i hi hstarves => ?_, fun i hi hrefused => ?_⟩
  · obtain rfl := Nat.lt_one_iff.mp hi
    exact Bool.noConfusion (hstarves.2.symm.trans (h hstarves.1).1)
  · obtain rfl := Nat.lt_one_iff.mp hi
    exact (h hrefused.1).2 hrefused.2

/-- The attempts of a run leave no message to be sent, unless an authentication is refused. -/
theorem Run.stretch {auth : Bool} {n' : ℕ} (h : Run env auth n n' authed) :
    ∃ len, n' = n + len ∧ 0 < len ∧ Stretch env auth n len 0 authed := by
  induction h with
  | @answered n h =>
    obtain ⟨hfed, hkept⟩ := first_kept env false n Bool.noConfusion
    refine ⟨1, rfl, one_pos, hfed, fun _ => ⟨hkept, ?_, ?_⟩, Bool.noConfusion⟩
    · rw [isAuth_one, h]
      rfl
    · rw [owed_one, change, h]
      rfl
  | @expired n n' authed h _ ih =>
    obtain ⟨len, rfl, -, hstretch⟩ := ih
    obtain ⟨hfed, hkept⟩ := first_kept env false n Bool.noConfusion
    have hnext : isAuth env false n 1 = true := by
      rw [isAuth_one, h]
      rfl
    have hafter := Stretch.after false hfed hkept (hnext.symm ▸ hstretch)
    have howed : owed env false n 1 - 1 = 0 := by
      rw [owed_one, change, h]
      rfl
    rw [howed] at hafter
    exact ⟨1 + len, by omega, by omega, hafter⟩
  | @refused n hreq h =>
    refine ⟨1, rfl, one_pos, fun i hi hstarves => ?_, Bool.noConfusion,
      fun _ => ⟨0, one_pos, rfl, h⟩⟩
    obtain rfl := Nat.lt_one_iff.mp hi
    exact Bool.noConfusion (hstarves.2.symm.trans hreq)
  | @unreported n token hreq h hreports =>
    obtain ⟨hfed, hkept⟩ := first_kept env true n
      fun _ => ⟨hreq, by rw [h]; exact some_ne_none _⟩
    refine ⟨1, rfl, one_pos, hfed, fun _ => ⟨hkept, rfl, ?_⟩, Bool.noConfusion⟩
    rw [owed_one, change, if_pos rfl, hreports]
    rfl
  | @devinfo n n' token authed hreq h hreports _ hlast ih =>
    obtain ⟨len, rfl, -, hstretch⟩ := ih
    obtain ⟨hfed, hkept⟩ := first_kept env true n
      fun _ => ⟨hreq, by rw [h]; exact some_ne_none _⟩
    have hafter := Stretch.after true hfed hkept hstretch
    refine ⟨1 + len, by omega, by omega, hafter.fed, fun hauthed => ?_, hafter.refused⟩
    have hone := hlast.resolve_right fun hno => Bool.noConfusion (hno.symm.trans hauthed)
    have howed : owed env true n 1 - 1 = 0 := by
      rw [owed_one, change, if_pos rfl, hone]
      rfl
    rw [← howed]
    exact hafter.settled hauthed
  | @firmware n n' n'' token authed hreq h hreports _ _ ih ih' =>
    obtain ⟨len, rfl, -, hstretch⟩ := ih
    obtain ⟨len', rfl, -, hstretch'⟩ := ih'
    obtain ⟨hfed, hkept⟩ := first_kept env true n
      fun _ => ⟨hreq, by rw [h]; exact some_ne_none _⟩
    have hfirst := Stretch.after true hfed hkept hstretch
    obtain ⟨hnone, hmessage, hleft⟩ := hfirst.settled rfl
    have hnext : Stretch env (isAuth env true n (1 + len)) (n + (1 + len)) len' 0 authed := by
      rw [hmessage, show n + (1 + len) = n + 1 + len by omega]
      exact hstretch'
    have hsecond := Stretch.after true hfirst.fed hnone hnext
    have howed : owed env true n (1 + len) - 1 = 0 := by
      rw [hleft, owed_one, change, if_pos rfl, hreports]
      rfl
    rw [howed] at hsecond
    exact ⟨1 + len + len', by omega, by omega, hsecond⟩

/-- The condition at an attempt, seen from a later one. -/
theorem relents_from {auth : Bool} {k j : ℕ} (hstarves : ∀ i ≤ k + j, ¬ Starves env auth n i)
    (hlast : Refused env auth n (k + j) ∨ owed env auth n (k + j + 1) ≤ 0)
    (howed : 1 ≤ owed env auth n k) :
    (∀ i ≤ j, ¬ Starves env (isAuth env auth n k) (n + k) i) ∧
      (Refused env (isAuth env auth n k) (n + k) j ∨
        owed env (isAuth env auth n k) (n + k) (j + 1) ≤ 0) := by
  refine ⟨fun i hi => ?_, ?_⟩
  · rw [← starves_add]
    exact hstarves (k + i) (by omega)
  · rcases hlast with hrefused | hnone
    · exact .inl ((refused_add env auth n k j).mp hrefused)
    · rw [add_assoc, owed_add] at hnone
      exact Or.inr (by omega)

theorem exists_run (last : ℕ) : ∀ (auth : Bool) (n : ℕ),
    (∀ i ≤ last, ¬ Starves env auth n i) →
    (Refused env auth n last ∨ owed env auth n (last + 1) ≤ 0) →
    ∃ n' authed, Run env auth n n' authed ∧ n' ≤ n + last + 1 := by
  induction last using Nat.strong_induction_on with
  | _ last ih =>
    intro auth n hstarves hlast
    cases auth with
    | false =>
      cases hexpired : (env.attempt n).expired with
      | false => exact ⟨n + 1, true, .answered hexpired, by omega⟩
      | true =>
        have hnext : isAuth env false n 1 = true := by
          rw [isAuth_one, hexpired]
          rfl
        have howed : owed env false n 1 = 1 := by
          rw [owed_one, change, hexpired]
          rfl
        cases last with
        | zero =>
          rcases hlast with hrefused | hnone
          · exact Bool.noConfusion hrefused.1
          · rw [howed] at hnone
            omega
        | succ l =>
          rw [add_comm l 1] at hstarves hlast
          obtain ⟨hfed, hcond⟩ := relents_from hstarves hlast howed.ge
          rw [hnext] at hfed hcond
          obtain ⟨n', authed, hrun, hle⟩ :=
            ih l (Nat.lt_succ_self l) true (n + 1) hfed hcond
          exact ⟨n', authed, .expired hexpired hrun, by omega⟩
    | true =>
      have hreq : (env.attempt n).reqMalloc = true := by
        by_contra hno
        exact hstarves 0 (Nat.zero_le last) ⟨rfl, Bool.not_eq_true _ ▸ hno⟩
      cases hgranted : (env.attempt n).granted with
      | none => exact ⟨n + 1, false, .refused hreq hgranted, by omega⟩
      | some token =>
        have howed : owed env true n 1 = env.reports (env.attempt n) := by
          rw [owed_one, change, if_pos rfl]
          ring
        by_cases hzero : env.reports (env.attempt n) = 0
        · exact ⟨n + 1, true, .unreported hreq hgranted hzero, by omega⟩
        have hpos : 0 < env.reports (env.attempt n) := pos_of_ne_zero hzero
        cases last with
        | zero =>
          rcases hlast with hrefused | hnone
          · exact absurd (hgranted.symm.trans hrefused.2) (some_ne_none token)
          · rw [howed] at hnone
            omega
        | succ l =>
          rw [add_comm l 1] at hstarves hlast
          obtain ⟨hfed, hcond⟩ := relents_from hstarves hlast (by rw [howed]; omega)
          obtain ⟨n', authed, hrun, hle⟩ :=
            ih l (Nat.lt_succ_self l) false (n + 1) hfed hcond
          by_cases hfirst : env.reports (env.attempt n) = 1 ∨ authed = false
          · exact ⟨n', authed, .devinfo hreq hgranted hpos hrun hfirst, by omega⟩
          rw [not_or, Bool.not_eq_false] at hfirst
          obtain ⟨hone, rfl⟩ := hfirst
          have htwo : env.reports (env.attempt n) = 2 := by
            have := reports_le env (env.attempt n)
            omega
          obtain ⟨len, rfl, hlen, hstretch⟩ := hrun.stretch
          obtain ⟨hkeptfed, hkept⟩ := first_kept env true n
            fun _ => ⟨hreq, by rw [hgranted]; exact some_ne_none _⟩
          obtain ⟨hnone, hmessage, hleft⟩ :=
            (Stretch.after true hkeptfed hkept hstretch).settled rfl
          rw [howed, htwo] at hleft
          -- the device information left the condition for the firmware version
          have hlater : ∃ j, 1 + l = 1 + len + j := by
            refine Nat.exists_eq_add_of_le ?_
            by_contra hshort
            rcases hlast with hrefused | hzero'
            · exact hnone (1 + l) (by omega) hrefused
            · rw [show 1 + l + 1 = 1 + len by omega, hleft] at hzero'
              omega
          obtain ⟨j, hj⟩ := hlater
          rw [hj] at hstarves hlast
          obtain ⟨hfed', hcond'⟩ := relents_from hstarves hlast (by rw [hleft]; omega)
          rw [hmessage, ← add_assoc n 1 len] at hfed' hcond'
          obtain ⟨n'', authed, hrun', hle'⟩ :=
            ih j (by omega) false (n + 1 + len) hfed' hcond'
          exact ⟨n'', authed, .firmware hreq hgranted htwo hrun hrun', by omega⟩

theorem exists_run_iff (auth : Bool) (n : ℕ) :
    (∃ n' authed, Run env auth n n' authed) ↔ Relents env auth n := by
  constructor
  · rintro ⟨n', authed, hrun⟩
    obtain ⟨len, rfl, hpos, hstretch⟩ := hrun.stretch
    cases authed with
    | false =>
      obtain ⟨i, hi, hrefused⟩ := hstretch.refused rfl
      exact ⟨i, fun j hj => hstretch.fed j (by omega), Or.inl hrefused⟩
    | true =>
      obtain ⟨k, rfl⟩ := Nat.exists_eq_add_of_le' hpos
      obtain ⟨-, -, hleft⟩ := hstretch.settled rfl
      exact ⟨k, fun j hj => hstretch.fed j (by omega), Or.inr hleft.le⟩
  · rintro ⟨last, hfed, hcond⟩
    obtain ⟨n', authed, hrun, -⟩ := exists_run last auth n hfed hcond
    exact ⟨n', authed, hrun⟩

/-- A call returns, and has made a bounded number of requests. -/
def Settles (call : ℕ → HttpCall) (st : HttpState) : Prop :=
  ∃ bound fuel r, call fuel st = some r ∧ r.2.attempts ≤ st.attempts + bound

theorem settles_of_some {call : ℕ → HttpCall} {fuel : ℕ} {r : ℤ × HttpState} {st : HttpState}
    (h : call fuel st = some r) : Settles call st :=
  ⟨r.2.attempts, fuel, r, h, Nat.le_add_left _ _⟩

/-- **Termination.**  A call returns, after a bounded number of requests, exactly when it sends
nothing or the server relents. -/
theorem reauth_settles_iff (env : HttpEnv) (msg : Option HttpMessageParam) (st : HttpState) :
    (Settles (fun fuel => iotHttpSendMessage env fuel msg) st ↔
      (sends env msg st = true → Relents env false st.attempts)) ∧
    (Settles (iotHttpDeviceNameAuth env) st ↔
      (env.handle = true → Relents env true st.attempts)) := by
  constructor
  · cases hsends : sends env msg st with
    | false =>
      refine iff_of_true ?_ fun hno => Bool.noConfusion hno
      exact settles_of_some (show iotHttpSendMessage env 1 msg st = some (-1, st) from
        sendMessage_not_sends hsends _)
    | true =>
      have hhandle : env.handle = true := by
        rw [sends, Bool.and_eq_true, Bool.and_eq_true] at hsends
        exact hsends.1.1
      rw [forall_prop_of_true rfl, ← exists_run_iff]
      constructor
      · rintro ⟨_, fuel, r, h, -⟩
        exact ⟨_, _, (run_of_calls hhandle fuel).2 msg st r hsends h⟩
      · rintro ⟨n', authed, hrun⟩
        obtain ⟨bound, hcalls⟩ := calls_of_run hhandle hrun
        obtain ⟨r, hr, -⟩ := hcalls bound le_rfl msg st hsends rfl
        exact settles_of_some hr
  · cases hhandle : env.handle with
    | false =>
      refine iff_of_true ?_ fun hno => Bool.noConfusion hno
      exact settles_of_some (show iotHttpDeviceNameAuth env 1 st = some (-1, st) from
        deviceNameAuth_handle hhandle _)
    | true =>
      rw [forall_prop_of_true rfl, ← exists_run_iff]
      constructor
      · rintro ⟨_, fuel, r, h, -⟩
        exact ⟨_, _, (run_of_calls hhandle fuel).1 st r h⟩
      · rintro ⟨n', authed, hrun⟩
        obtain ⟨bound, hcalls⟩ := calls_of_run hhandle hrun
        obtain ⟨r, hr, -⟩ := hcalls bound le_rfl st rfl
        exact settles_of_some hr

/-! ## A server that does not relent -/

theorem nul_notMem_0 : (0 : UInt8) ∉ [48] := by decide
theorem nul_notMem_20001 : (0 : UInt8) ∉ [50, 48, 48, 48, 49] := by decide

/-- A response with a code, whose other values are empty. -/
def responseWith (code : CString) (key : String) : Option CString :=
  if key = "code" then some code else some ⟨[], CString.nul_notMem_nil⟩

/-- There is memory for everything, and the response has a code. -/
def attemptWith (code : CString) : HttpAttempt :=
  ⟨true, true, true, true, 0, responseWith code, true⟩

/-- The code 20001 of an expired token, and the code of success. -/
def expiredAttempt : HttpAttempt := attemptWith ⟨[50, 48, 48, 48, 49], nul_notMem_20001⟩
def grantedAttempt : HttpAttempt := attemptWith ⟨[48], nul_notMem_0⟩

/-- Every message is answered that the token is out of date, every authentication succeeds. -/
def stubbornEnv : HttpEnv :=
  ⟨true, true, fun i => if i % 2 = 0 then expiredAttempt else grantedAttempt⟩

theorem stubborn_isAuth (i : ℕ) : isAuth stubbornEnv false 0 i = decide (i % 2 = 1) := by
  induction i with
  | zero => rfl
  | succ i ih =>
    rw [isAuth, ih, zero_add, stubbornEnv]
    dsimp only
    rcases Nat.mod_two_eq_zero_or_one i with h | h
    · rw [if_pos h, h]
      have hodd : (i + 1) % 2 = 1 := by omega
      rw [hodd]
      decide
    · have heven : (i + 1) % 2 = 0 := by omega
      rw [h, heven]
      rfl

theorem stubborn_owed (i : ℕ) : owed stubbornEnv false 0 i = 1 + (i / 2 : ℕ) := by
  induction i with
  | zero => rfl
  | succ i ih =>
    rw [owed, ih, stubborn_isAuth, zero_add]
    rcases Nat.mod_two_eq_zero_or_one i with h | h
    · have hchange : change stubbornEnv (decide (i % 2 = 1)) (stubbornEnv.attempt i) = 0 := by
        rw [stubbornEnv, h]
        dsimp only
        rw [if_pos h]
        decide
      rw [hchange]
      omega
    have hchange : change stubbornEnv (decide (i % 2 = 1)) (stubbornEnv.attempt i) = 1 := by
      rw [stubbornEnv, h]
      dsimp only
      rw [if_neg (by omega)]
      decide
    rw [hchange]
    omega

/-- The message is sent again and again. -/
theorem reauth_settles_broken :
    ¬ ∀ (env : HttpEnv) (msg : Option HttpMessageParam) (st : HttpState),
      Settles (fun fuel => iotHttpSendMessage env fuel msg) st := by
  intro hclaim
  obtain ⟨_, fuel, r, h, -⟩ := hclaim stubbornEnv reportParam freshState
  have hhandle : stubbornEnv.handle = true := rfl
  have hrun := (run_of_calls hhandle fuel).2 reportParam freshState r rfl h
  obtain ⟨last, -, hrefused | hnone⟩ := (exists_run_iff false 0).mp ⟨_, _, hrun⟩
  · have hodd : last % 2 = 1 := by
      have := hrefused.1
      rw [stubborn_isAuth, decide_eq_true_eq] at this
      exact this
    have hgranted := hrefused.2
    rw [zero_add, stubbornEnv] at hgranted
    dsimp only at hgranted
    rw [if_neg (by omega)] at hgranted
    exact absurd hgranted (by decide)
  · rw [stubborn_owed] at hnone
    omega

end Iotkit.HttpApi
