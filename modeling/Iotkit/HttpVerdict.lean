/-
# What authentications and messages over HTTP report (`iotx_http_api.c`)

Both functions keep their verdict in the variable that holds what `httpclient_recv_response`
returned, and leave by the same exit before and after they have looked at the response.  An
authentication that is made again in the middle of a message replaces the header of the message
by a text that is not in the heap, and the message releases what it finds there.
-/
import Iotkit.HttpApi

namespace Iotkit.HttpApi

open LibC HeapLedger List Option

/-! ## What is wanted -/

/-- The server answered a message with the code of success and a message id. -/
def HttpAttempt.Acknowledged (a : HttpAttempt) : Prop :=
  a.post = true ∧ 0 ≤ a.recv ∧
    (∃ code, a.value "code" = some code ∧ atoi code.bytes = iotxHttpSuccess) ∧
    (a.value "info.messageId").isSome = true

/-- A message returns 0 only if it was acknowledged, and what it allocates is released. -/
def SendSound (env : HttpEnv) (msg : Option HttpMessageParam) (st : HttpState) : Prop :=
  ∃ fuel ret st', iotHttpSendMessage env fuel msg st = some (ret, st') ∧
    (ret = 0 → sends env msg st = true ∧ (env.attempt st.attempts).Acknowledged) ∧ Clean st st'

/-- An authentication returns 0 only if it brought a token, which is stored and in use; the
device is authenticated only with a token that was brought; and what is allocated is released. -/
def AuthSound (env : HttpEnv) (st : HttpState) : Prop :=
  ∃ fuel ret st', iotHttpDeviceNameAuth env fuel st = some (ret, st') ∧
    (ret = 0 → (env.attempt st.attempts).granted = some st'.token ∧ st'.isAuthed = true) ∧
    (env.handle = true → st'.isAuthed = true →
      ∃ i, st.attempts ≤ i ∧ i < st'.attempts ∧ (env.attempt i).granted = some st'.token) ∧
    Clean st st'

/-- An authentication that has memory for its request, but not for the response. -/
def HttpAttempt.StopsEarly (a : HttpAttempt) : Prop :=
  a.reqMalloc = true ∧ a.rspMalloc = false

/-- A response to a message that comes in full is an acknowledgement, and one that says that the
token is out of date does not come in full and meets an authentication that stops early. -/
structure SendOrdinary (env : HttpEnv) (st : HttpState) : Prop where
  expired : (env.attempt st.attempts).expired = true →
    (env.attempt st.attempts).recv ≠ 0 ∧ (env.attempt (st.attempts + 1)).StopsEarly
  answered : (env.attempt st.attempts).expired = false →
    (env.attempt st.attempts).headerMalloc = true → (env.attempt st.attempts).post = true →
      (env.attempt st.attempts).recv = 0 → (env.attempt st.attempts).Acknowledged

/-- An authentication has memory for its request, gets a response, and one that comes in full has
a token or another code than that of success.  If the first report says that the token is out of
date, the authentication that follows stops early, and the second report does not say so. -/
structure AuthOrdinary (env : HttpEnv) (st : HttpState) : Prop where
  fed : (env.attempt st.attempts).reqMalloc = true
  kept : ¬ (env.attempt st.attempts).loses
  verdict : (env.attempt st.attempts).granted = none →
    (env.attempt st.attempts).rspMalloc = true → (env.attempt st.attempts).post = true →
      (env.attempt st.attempts).recv = 0 → (env.attempt st.attempts).refused = true
  devinfo : (env.attempt st.attempts).granted ≠ none →
    (env.attempt st.attempts).devinfoMalloc = true →
      (env.attempt (st.attempts + 1)).expired = true →
        (env.attempt (st.attempts + 2)).StopsEarly
  firmware : (env.attempt st.attempts).granted ≠ none →
    (env.attempt st.attempts).devinfoMalloc = true → env.firmwareVersion = true →
      (env.attempt (st.attempts + 1)).expired = false →
        (env.attempt (st.attempts + 2)).expired = false

/-! ## Blocks that are lost -/

/-- Between two states, only blocks that were allocated in between are released. -/
def Grows (st st' : HttpState) : Prop :=
  ∃ log, st'.log = st.log ++ log ∧ st.blocks ≤ st'.blocks ∧
    ∀ b, .free b ∈ log → st.blocks ≤ b ∧ b < st'.blocks

/-- Between two states, a block was allocated and not released. -/
def Loses (b : ℕ) (st st' : HttpState) : Prop :=
  ∃ log, st'.log = st.log ++ log ∧ st.blocks ≤ b ∧ b < st'.blocks ∧ .alloc b ∈ log ∧
    .free b ∉ log

variable {st' : HttpState}

variable {st : HttpState}

theorem Clean.grows (h : Clean st st') : Grows st st' := by
  obtain ⟨log, hlog, hrel⟩ := h
  exact ⟨log, hlog, hrel.le, fun b hmem => hrel.of_free_mem hmem⟩

variable {st'' : HttpState}

theorem Grows.trans {st : HttpState} (h : Grows st st') (h' : Grows st' st'') : Grows st st'' := by
  obtain ⟨log, hlog, hle, hfrees⟩ := h
  obtain ⟨log', hlog', hle', hfrees'⟩ := h'
  refine ⟨log ++ log', by rw [hlog', hlog, append_assoc], hle.trans hle', fun b hmem => ?_⟩
  rcases mem_append.mp hmem with hmem | hmem
  · exact ⟨(hfrees b hmem).1, (hfrees b hmem).2.trans_le hle'⟩
  · exact ⟨hle.trans (hfrees' b hmem).1, (hfrees' b hmem).2⟩

theorem grows_malloc (st : HttpState) : Grows st st.malloc := by
  refine ⟨[.alloc st.blocks], rfl, Nat.le_succ _, fun b hmem => ?_⟩
  exact absurd (mem_singleton.mp hmem) HeapEvent.noConfusion

theorem Grows.append {st' : HttpState} (h : Grows st st') (e : HeapEvent)
    (he : ∀ b, e = .free b → st.blocks ≤ b ∧ b < st'.blocks) {st'' : HttpState}
    (hlog : st''.log = st'.log ++ [e]) (hblocks : st''.blocks = st'.blocks) : Grows st st'' := by
  obtain ⟨log, hold, hmono, hfrees⟩ := h
  refine ⟨log ++ [e], by rw [hlog, hold, append_assoc], hblocks ▸ hmono, fun b hmem => ?_⟩
  rw [hblocks]
  rcases mem_append.mp hmem with hmem | hmem
  · exact hfrees b hmem
  · exact he b (mem_singleton.mp hmem).symm

theorem Grows.free {st st' : HttpState} (h : Grows st st') {b : ℕ} (hle : st.blocks ≤ b)
    (hlt : b < st'.blocks) : Grows st (st'.free b) :=
  h.append (.free b) (fun _ hb => HeapEvent.free.inj hb ▸ ⟨hle, hlt⟩) rfl rfl

variable {b : ℕ}

theorem Loses.not_clean (h : Loses b st st') : ¬ Clean st st' := by
  rintro ⟨log, hlog, hrel⟩
  obtain ⟨log', hlog', -, -, halloc, hfree⟩ := h
  obtain rfl := append_cancel_left (hlog.symm.trans hlog')
  exact hfree (hrel.free_mem halloc)

theorem Loses.grows (h : Loses b st st') (h' : Grows st' st'') : Loses b st st'' := by
  obtain ⟨log, hlog, hle, hlt, halloc, hfree⟩ := h
  obtain ⟨log', hlog', hmono, hfrees⟩ := h'
  refine ⟨log ++ log', by rw [hlog', hlog, append_assoc], hle, hlt.trans_le hmono,
    mem_append_left _ halloc, fun hmem => ?_⟩
  rcases mem_append.mp hmem with hmem | hmem
  · exact hfree hmem
  · exact absurd (hfrees b hmem).1 (not_le.mpr hlt)

theorem Loses.after (h' : Loses b st' st'') (h : Grows st st') : Loses b st st'' := by
  obtain ⟨log, hlog, hmono, hfrees⟩ := h
  obtain ⟨log', hlog', hle, hlt, halloc, hfree⟩ := h'
  refine ⟨log ++ log', by rw [hlog', hlog, append_assoc], hmono.trans hle, hlt,
    mem_append_right _ halloc, fun hmem => ?_⟩
  rcases mem_append.mp hmem with hmem | hmem
  · exact absurd (hfrees b hmem).2 (not_lt.mpr hle)
  · exact hfree hmem

theorem Loses.append (h : Loses b st st') {e : HeapEvent} (he : e ≠ .free b)
    (hlog : st''.log = st'.log ++ [e]) (hblocks : st''.blocks = st'.blocks) : Loses b st st'' := by
  obtain ⟨log, hold, hle, hlt, halloc, hfree⟩ := h
  refine ⟨log ++ [e], by rw [hlog, hold, append_assoc], hle, hblocks ▸ hlt,
    mem_append_left _ halloc, fun hmem => ?_⟩
  rcases mem_append.mp hmem with hmem | hmem
  · exact hfree hmem
  · exact he (mem_singleton.mp hmem).symm

theorem Loses.free {c : ℕ} {st : HttpState} (h : Loses b st st') (hne : c ≠ b) :
    Loses b st (st'.free c) :=
  h.append (fun hb => hne (HeapEvent.free.inj hb)) rfl rfl

/-! ## What the calls do to the heap -/

variable {env : HttpEnv} {msg : Option HttpMessageParam} {st : HttpState}

theorem outdated_grows (st : HttpState) : Grows st st.outdated := by
  have hfirst : Grows st { st with attempts := st.attempts + 1 }.malloc := grows_malloc _
  exact hfirst.trans (clean_reads _ 2).grows

theorem outdated_loses (st : HttpState) : Loses st.blocks st st.outdated := by
  have hlost : Loses st.blocks st { st with attempts := st.attempts + 1 }.malloc := by
    refine ⟨[.alloc st.blocks], rfl, le_rfl, Nat.lt_succ_self _, mem_singleton_self _,
      fun hmem => ?_⟩
    exact HeapEvent.noConfusion (mem_singleton.mp hmem)
  exact hlost.grows (clean_reads _ 2).grows

theorem authed_grows (st : HttpState) (token : CString) : Grows st (st.authed token) := by
  have hfirst : Grows st { st with isAuthed := false, attempts := st.attempts + 1 }.malloc.malloc :=
    (grows_malloc _).trans (grows_malloc _)
  exact hfirst.trans (clean_reads _ 3).grows

theorem authed_blocks (st : HttpState) (token : CString) :
    (st.authed token).blocks = st.blocks + 5 := rfl

theorem Grows.freeHeader {st st' : HttpState} (h : Grows st st')
    (hheader : ∀ b, st'.header = .block b → st.blocks ≤ b ∧ b < st'.blocks) :
    Grows st st'.freeHeader := by
  unfold HttpState.freeHeader
  split
  · exact h
  · exact h.append .freeLiteral (fun _ hb => HeapEvent.noConfusion hb) rfl rfl
  · next b hb => exact h.free (hheader b hb).1 (hheader b hb).2

theorem Loses.freeHeader {b : ℕ} {st st' : HttpState} (h : Loses b st st')
    (hheader : st'.header ≠ .block b) : Loses b st st'.freeHeader := by
  unfold HttpState.freeHeader
  split
  · exact h
  · exact h.append HeapEvent.noConfusion rfl rfl
  · next c hc => exact h.free fun heq => hheader (by rw [hc, heq])

/-- What an authentication leaves as the header. -/
def AuthHeader (env : HttpEnv) (st st' : HttpState) : Prop :=
  (st'.header = .literal ∨ st'.header = .null) ∨
    st'.header = st.header ∧
      (env.handle = false ∨ (env.attempt st.attempts).rspMalloc = false)

/-- What a call does to the heap, and what it leaves as the header. -/
theorem calls_grow (fuel : ℕ) :
    (∀ st r, iotHttpDeviceNameAuth env fuel st = some r →
      Grows st r.2 ∧ AuthHeader env st r.2) ∧
    (∀ msg st r, iotHttpSendMessage env fuel msg st = some r →
      Grows st r.2 ∧ (r.2.header = .null ∨ r.2.header = st.header)) := by
  induction fuel with
  | zero =>
    constructor
    · intro st r h
      rw [iotHttpDeviceNameAuth] at h
      exact absurd h.symm (some_ne_none r)
    · intro msg st r h
      rw [iotHttpSendMessage] at h
      exact absurd h.symm (some_ne_none r)
  | succ fuel ih =>
    obtain ⟨ihauth, ihsend⟩ := ih
    constructor
    · intro st r h
      rw [iotHttpDeviceNameAuth] at h
      cases hhandle : env.handle with
      | false =>
        rw [deviceNameAuth_handle hhandle] at h
        rw [← Option.some.inj h]
        exact ⟨(Clean.of_eq rfl rfl).grows, .inr ⟨rfl, .inl hhandle⟩⟩
      | true =>
        obtain ⟨-, ⟨-, hdone, hclean, hlost, hmono⟩ | ⟨token, r₀, -, hreports, rfl⟩⟩ :=
          deviceNameAuth_cases hhandle h
        · constructor
          · by_cases hloses : (env.attempt st.attempts).loses
            · refine ⟨_, hlost hloses, hmono, fun b hmem => ?_⟩
              simp at hmem
            · exact (hclean hloses).grows
          · cases hrsp : (env.attempt st.attempts).rspMalloc with
            | false =>
              rw [hrsp, if_neg Bool.noConfusion] at hdone
              exact .inr ⟨hdone.header, .inr hrsp⟩
            | true =>
              rw [hrsp, if_pos rfl] at hdone
              exact .inl (.inl hdone.header)
        · have hbefore := authed_grows st token
          have hfive := authed_blocks st token
          suffices hdone : Grows (st.authed token) r₀.2 ∧
              (r₀.2.header = .literal ∨ r₀.2.header = .null) by
            have hle := hdone.1.choose_spec.2.1
            refine ⟨((hbefore.trans hdone.1).free le_rfl (by omega)).free (Nat.le_succ _)
              ?_, .inl hdone.2⟩
            show st.blocks + 1 < r₀.2.blocks
            omega
          rcases authReports_cases hreports with ⟨-, rfl⟩ | ⟨-, r₁, hfirst, hsecond⟩
          · exact ⟨(Clean.of_eq rfl rfl).grows, .inl rfl⟩
          obtain ⟨hgrows, hheader⟩ := ihsend _ _ _ hfirst
          have hmono := hgrows.choose_spec.2.1
          have hfreed : Grows (st.authed token) (r₁.2.free (st.authed token).blocks) :=
            ((grows_malloc _).trans hgrows).free le_rfl hmono
          rcases hsecond with ⟨-, rfl⟩ | ⟨-, r₂, hsent, rfl⟩
          · exact ⟨hfreed, hheader.symm⟩
          obtain ⟨hgrows', hheader'⟩ := ihsend _ _ _ hsent
          refine ⟨hfreed.trans hgrows', ?_⟩
          rcases hheader' with hnull | hsame
          · exact .inr hnull
          · rw [hsame]
            exact hheader.symm
    · intro msg st r h
      rw [iotHttpSendMessage] at h
      cases hsends : sends env msg st with
      | false =>
        rw [sendMessage_not_sends hsends] at h
        rw [← Option.some.inj h]
        exact ⟨(Clean.of_eq rfl rfl).grows, .inr rfl⟩
      | true =>
        rcases sendMessage_cases hsends h with ⟨-, hdone, hclean⟩ | ⟨-, r₀, hauth, rfl⟩
        · exact ⟨hclean.grows, .inl hdone.header⟩
        obtain ⟨hgrows, hheader⟩ := ihauth _ _ hauth
        have hall := (outdated_grows st).trans hgrows
        have hmono := hgrows.choose_spec.2.1
        refine ⟨hall.freeHeader fun b hb => ?_, .inl (freeHeader_header _)⟩
        rcases hheader with (hliteral | hnull) | ⟨hsame, -⟩
        · exact absurd (hliteral.symm.trans hb) HttpHeader.noConfusion
        · exact absurd (hnull.symm.trans hb) HttpHeader.noConfusion
        · have hown : HttpHeader.block st.blocks = .block b := hsame.symm.trans hb
          obtain rfl := HttpHeader.block.inj hown
          exact ⟨le_rfl, lt_of_lt_of_le (show st.blocks < st.blocks + 3 by omega) hmono⟩

/-! ## Messages -/

theorem handle_of_sends (h : sends env msg st = true) :
    env.handle = true ∧ st.isAuthed = true := by
  rw [sends, Bool.and_eq_true, Bool.and_eq_true] at h
  exact h.1

variable {fuel : ℕ} {r : ℤ × HttpState}

section

variable (hsends : sends env msg st = true) (hexpired : (env.attempt st.attempts).expired = true)
include hsends hexpired

/-- A message that is answered that the token is out of date loses its header, unless the
authentication stops early. -/
theorem stops_of_send (h : iotHttpSendMessage env fuel msg st = some r) :
    r.1 = (env.attempt st.attempts).recv ∧
      ((env.attempt (st.attempts + 1)).StopsEarly ∨ Loses st.blocks st r.2) := by
  have hhandle := (handle_of_sends hsends).1
  cases fuel with
  | zero =>
    rw [iotHttpSendMessage] at h
    exact absurd h.symm (some_ne_none r)
  | succ fuel =>
    rw [iotHttpSendMessage, sendMessage_expired hsends hexpired] at h
    obtain ⟨r₀, hauth, rfl⟩ := map_eq_some_iff.mp h
    refine ⟨rfl, ?_⟩
    obtain ⟨hgrows, hheader⟩ := (calls_grow fuel).1 _ _ hauth
    have hlost := (outdated_loses st).grows hgrows
    rcases hheader with (hliteral | hnull) | ⟨-, hno | hrsp⟩
    · exact .inr (hlost.freeHeader fun hb => HttpHeader.noConfusion (hliteral.symm.trans hb))
    · exact .inr (hlost.freeHeader fun hb => HttpHeader.noConfusion (hnull.symm.trans hb))
    · exact absurd (hno.symm.trans hhandle) Bool.noConfusion
    refine .inl ⟨?_, hrsp⟩
    by_contra hreq
    cases fuel with
    | zero =>
      rw [iotHttpDeviceNameAuth] at hauth
      exact some_ne_none r₀ hauth.symm
    | succ fuel =>
      rw [iotHttpDeviceNameAuth,
        deviceNameAuth_crash hhandle (Bool.not_eq_true _ ▸ hreq)] at hauth
      exact some_ne_none r₀ hauth.symm

theorem send_stops (hstops : (env.attempt (st.attempts + 1)).StopsEarly) (fuel : ℕ) :
    ∃ r, iotHttpSendMessage env (fuel + 2) msg st = some r ∧
      r.1 = (env.attempt st.attempts).recv ∧ r.2.isAuthed = false ∧
      st.attempts < r.2.attempts ∧ Clean st r.2 := by
  obtain ⟨hreq, hrsp⟩ := hstops
  have hreq' : (env.attempt st.outdated.attempts).reqMalloc = true := hreq
  have hgranted : (env.attempt st.outdated.attempts).granted = none := by
    rw [outdated_attempts, HttpAttempt.granted, hrsp, if_neg fun h => Bool.noConfusion h.1]
  obtain ⟨r, hr, hdone, hclean, -⟩ := deviceNameAuth_other (handle_of_sends hsends).1 hreq'
    hgranted (iotHttpSendMessage env fuel reportParam)
  obtain ⟨hauthed, -, hattempts, -⟩ := freeHeader_kept r.2
  refine ⟨((env.attempt st.attempts).recv, r.2.freeHeader), ?_, rfl, ?_, ?_, ?_⟩
  · show sendMessage env (iotHttpDeviceNameAuth env (fuel + 1)) msg st = _
    have hauth : iotHttpDeviceNameAuth env (fuel + 1) st.outdated = some r := hr
    rw [sendMessage_expired hsends hexpired, hauth]
    rfl
  · exact hauthed.trans hdone.isAuthed
  · show st.attempts < r.2.freeHeader.attempts
    rw [hattempts, hdone.attempts, outdated_attempts]
    omega
  · have hkept : ¬ (env.attempt st.outdated.attempts).loses := by
      rintro ⟨hyes, -⟩
      exact Bool.noConfusion (hrsp.symm.trans hyes)
    have hfirst : Clean st.malloc st.outdated := clean_reads _ 2
    refine clean_freeHeader (hfirst.trans (hclean hkept)) ?_
    have hheader := hdone.header
    rw [outdated_attempts, hrsp, if_neg Bool.noConfusion] at hheader
    exact hheader

theorem unauthed_of_stops (hstops : (env.attempt (st.attempts + 1)).StopsEarly)
    (h : iotHttpSendMessage env fuel msg st = some r) : r.2.isAuthed = false := by
  rcases fuel with _ | _ | fuel
  · rw [iotHttpSendMessage] at h
    exact absurd h.symm (some_ne_none r)
  · rw [iotHttpSendMessage, sendMessage_expired hsends hexpired, iotHttpDeviceNameAuth] at h
    exact absurd h.symm (some_ne_none r)
  · obtain ⟨r', hr', -, hauthed, -⟩ := send_stops hsends hexpired hstops fuel
    obtain rfl := Option.some.inj (h.symm.trans hr')
    exact hauthed

end

theorem HttpAttempt.acknowledged_of_delivered {a : HttpAttempt} (h : a.delivered = true) :
    a.Acknowledged := by
  rw [HttpAttempt.delivered, Bool.and_eq_true, decide_eq_true_eq] at h
  obtain ⟨hpost, hrecv⟩ := HttpAttempt.received_of_code h.1
  obtain ⟨code, -, hcode, -, hn⟩ := value_of_code h.1
  exact ⟨hpost, hrecv, ⟨code, hcode, hn⟩, h.2⟩

theorem HttpAttempt.not_acknowledged {a : HttpAttempt} (h : a.expired = true) :
    ¬ a.Acknowledged := by
  rintro ⟨-, -, ⟨code, hcode, hn⟩, -⟩
  obtain ⟨code', -, hcode', -, hn'⟩ := value_of_code ((a.expired_iff).mp h).2
  obtain rfl := Option.some.inj (hcode.symm.trans hcode')
  exact absurd (hn.symm.trans hn') (by decide)

/-- **Messages.** -/
theorem sendSound_iff (env : HttpEnv) (msg : Option HttpMessageParam) (st : HttpState) :
    SendSound env msg st ↔ (sends env msg st = true → SendOrdinary env st) := by
  have hone : (-1 : ℤ) ≠ 0 := by decide
  constructor
  · rintro ⟨fuel, ret, st', h, hverdict, hclean⟩ hsends
    constructor
    · intro hexpired
      obtain ⟨hret, hstops⟩ := stops_of_send hsends hexpired h
      refine ⟨fun hzero => ?_, hstops.resolve_right fun hlost => hlost.not_clean hclean⟩
      exact HttpAttempt.not_acknowledged hexpired (hverdict (hret.trans hzero)).2
    · intro hexpired hmalloc hpost hzero
      refine (hverdict ?_).2
      cases fuel with
      | zero =>
        rw [iotHttpSendMessage] at h
        exact absurd h.symm (some_ne_none _)
      | succ fuel =>
        rw [iotHttpSendMessage] at h
        obtain ⟨r, hr, hdone, -⟩ := sendMessage_other hsends hexpired
          (iotHttpDeviceNameAuth env fuel)
        obtain rfl := Option.some.inj (h.symm.trans hr)
        refine hdone.ret.trans ?_
        rw [HttpAttempt.sendVerdict, hmalloc, hpost, hzero, ite_self]
        decide
  · intro hordinary
    cases hsends : sends env msg st with
    | false =>
      exact ⟨1, -1, st, sendMessage_not_sends hsends _, fun h => absurd h hone, .of_eq rfl rfl⟩
    | true =>
      obtain ⟨hexp, hanswered⟩ := hordinary hsends
      cases hexpired : (env.attempt st.attempts).expired with
      | true =>
        obtain ⟨hne, hstops⟩ := hexp hexpired
        obtain ⟨r, hr, hret, -, -, hclean⟩ := send_stops hsends hexpired hstops 0
        exact ⟨2, r.1, r.2, hr, fun hzero => absurd (hret.symm.trans hzero) hne, hclean⟩
      | false =>
        obtain ⟨r, hr, hdone, hclean⟩ := sendMessage_other hsends hexpired
          (iotHttpDeviceNameAuth env 0)
        refine ⟨1, r.1, r.2, hr, fun hzero => ⟨hsends, ?_⟩, hclean⟩
        have hverdict := hdone.ret.symm.trans hzero
        unfold HttpAttempt.sendVerdict at hverdict
        split_ifs at hverdict with hno hdelivered
        · exact HttpAttempt.acknowledged_of_delivered hdelivered
        · rw [not_or, Bool.not_eq_false, Bool.not_eq_false] at hno
          exact hanswered hexpired hno.1 hno.2 hverdict

/-! ## Authentications -/

/-- What is known of the reports after an authentication that is as it should be. -/
structure Reported (token : CString) (st : HttpState) (r : ℤ × HttpState) : Prop where
  attempts : st.attempts ≤ r.2.attempts
  token : r.2.isAuthed = true → r.2.token = token
  authed : r.1 = 0 → r.2.isAuthed = true
  clean : Clean st r.2

variable {s : HttpState}

/-- The token is not touched by a message that finds its token in order, or stops early. -/
theorem devinfo_sent (hordinary : AuthOrdinary env st)
    (hgranted : (env.attempt st.attempts).granted ≠ none)
    (hdevinfo : (env.attempt st.attempts).devinfoMalloc = true) (hhandle : env.handle = true)
    (hs : s.attempts = st.attempts + 1) (hauthed : s.isAuthed = true) :
    ∃ r, iotHttpSendMessage env 2 reportParam s = some r ∧ s.attempts ≤ r.2.attempts ∧
      Clean s r.2 ∧ (r.2.isAuthed = true → r.2.token = s.token ∧
        r.2.attempts = st.attempts + 2 ∧
          (env.attempt (st.attempts + 1)).expired = false) := by
  have hsends : sends env reportParam s = true := by
    rw [sends, hhandle, hauthed]
    rfl
  cases hexpired : (env.attempt (st.attempts + 1)).expired with
  | true =>
    obtain ⟨r, hr, -, hno, hlt, hclean⟩ := send_stops hsends (by rw [hs]; exact hexpired)
      (by rw [hs]; exact hordinary.devinfo hgranted hdevinfo hexpired) 0
    exact ⟨r, hr, hlt.le, hclean, fun hyes => absurd (hno.symm.trans hyes) Bool.noConfusion⟩
  | false =>
    obtain ⟨r, hr, hdone, hclean⟩ := sendMessage_other hsends (by rw [hs]; exact hexpired)
      (iotHttpDeviceNameAuth env 1)
    refine ⟨r, hr, by rw [hdone.attempts]; omega, hclean, fun _ => ⟨hdone.token, ?_, rfl⟩⟩
    rw [hdone.attempts, hs]

theorem reports_sound (hordinary : AuthOrdinary env st) {token : CString}
    (hgranted : (env.attempt st.attempts).granted = some token) (hhandle : env.handle = true) :
    ∃ r, authReports env (iotHttpSendMessage env 2 reportParam) (env.attempt st.attempts)
      (st.authed token) = some r ∧ Reported token (st.authed token) r := by
  have hfail : (failReturn : ℤ) ≠ 0 := by decide
  have hsome : (env.attempt st.attempts).granted ≠ none := by
    rw [hgranted]
    exact some_ne_none token
  cases hdevinfo : (env.attempt st.attempts).devinfoMalloc with
  | false =>
    exact ⟨_, authReports_none hdevinfo _ _, le_rfl, fun _ => rfl,
      fun hzero => absurd hzero hfail, .of_eq rfl rfl⟩
  | true =>
    obtain ⟨r₁, hr₁, hle, hclean, hauthed⟩ := devinfo_sent hordinary hsome hdevinfo hhandle
      (show (st.authed token).malloc.attempts = st.attempts + 1 from rfl) rfl
    have hfreed : Clean (st.authed token) (r₁.2.free (st.authed token).blocks) :=
      clean_block hclean
    rw [authReports_some hdevinfo, hr₁, bind_some]
    unfold iotxReportFirmwareVersion
    cases hversion : env.firmwareVersion with
    | false =>
      exact ⟨_, rfl, hle, fun hyes => (hauthed hyes).1, fun hzero => absurd hzero hfail, hfreed⟩
    | true =>
      rw [if_neg Bool.noConfusion]
      cases hyes : r₁.2.isAuthed with
      | false =>
        have hsends : sends env reportParam (r₁.2.free (st.authed token).blocks) = false := by
          rw [sends_report hhandle]
          exact hyes
        have hsent : iotHttpSendMessage env 2 reportParam (r₁.2.free (st.authed token).blocks) =
              some (-1, r₁.2.free (st.authed token).blocks) :=
          sendMessage_not_sends hsends _
        rw [hsent]
        refine ⟨_, rfl, hle, fun hauthed' => ?_, fun hzero => ?_, hfreed⟩
        · exact absurd (hyes.symm.trans hauthed') Bool.noConfusion
        · exact absurd (show (-1 : ℤ) = 0 from hzero) (by decide)
      | true =>
        obtain ⟨htoken, hattempts, hexpired⟩ := hauthed hyes
        have hsends : sends env reportParam (r₁.2.free (st.authed token).blocks) = true := by
          rw [sends_report hhandle]
          exact hyes
        have hother : (env.attempt (r₁.2.free (st.authed token).blocks).attempts).expired =
            false := by
          show (env.attempt r₁.2.attempts).expired = false
          rw [hattempts]
          exact hordinary.firmware hsome hdevinfo hversion hexpired
        obtain ⟨r₂, hr₂, hdone, hclean₂⟩ := sendMessage_other hsends hother
          (iotHttpDeviceNameAuth env 1)
        have hsent : iotHttpSendMessage env 2 reportParam
            (r₁.2.free (st.authed token).blocks) = some r₂ := hr₂
        rw [hsent]
        refine ⟨_, rfl, ?_, fun _ => ?_, fun _ => ?_, hfreed.trans hclean₂⟩
        · exact hle.trans (hdone.attempts.symm ▸ Nat.le_succ _)
        · exact hdone.token.trans htoken
        · exact hdone.isAuthed.trans hyes

theorem firmware_of_reports {a : HttpAttempt} (hdevinfo : a.devinfoMalloc = true)
    (h : authReports env (iotHttpSendMessage env fuel reportParam) a s = some r) :
    ∃ r₁, iotHttpSendMessage env fuel reportParam s.malloc = some r₁ ∧
      iotxReportFirmwareVersion (iotHttpSendMessage env fuel reportParam) env.firmwareVersion
        (r₁.2.free s.blocks) = some r := by
  rw [authReports_some hdevinfo] at h
  exact bind_eq_some_iff.mp h

theorem firmware_grows {fuel : ℕ} {s : HttpState} {r : ℤ × HttpState}
    (h : iotxReportFirmwareVersion (iotHttpSendMessage env fuel reportParam) env.firmwareVersion
      s = some r) : Grows s r.2 := by
  unfold iotxReportFirmwareVersion at h
  split_ifs at h
  · rw [← Option.some.inj h]
    exact (Clean.of_eq rfl rfl).grows
  · obtain ⟨r', hr', rfl⟩ := map_eq_some_iff.mp h
    exact ((calls_grow fuel).2 _ _ _ hr').1

theorem report_loses {token : CString} {b : ℕ} {s' s'' : HttpState}
    (hbefore : Grows (st.authed token) s) (hlost : Loses b s s') (hafter : Grows s' s'') :
    ¬ Clean st ((s''.free st.blocks).free (st.blocks + 1)) := by
  have hall := ((hlost.grows hafter).after hbefore).after (authed_grows st token)
  have hb : st.blocks + 5 ≤ b := by
    rw [← authed_blocks st token]
    exact hbefore.choose_spec.2.1.trans hlost.choose_spec.2.1
  exact ((hall.free (by omega)).free (by omega)).not_clean

theorem authOrdinary_of_sound (hhandle : env.handle = true) (h : AuthSound env st) :
    AuthOrdinary env st := by
  obtain ⟨fuel, ret, st', hcall, hverdict, -, hclean⟩ := h
  cases fuel with
  | zero =>
    rw [iotHttpDeviceNameAuth] at hcall
    exact absurd hcall.symm (some_ne_none _)
  | succ fuel =>
  rw [iotHttpDeviceNameAuth] at hcall
  obtain ⟨hreq, hcases⟩ := deviceNameAuth_cases hhandle hcall
  have hother : (env.attempt st.attempts).granted = none →
      ¬ (env.attempt st.attempts).loses ∧ ret = (env.attempt st.attempts).authVerdict := by
    intro hnone
    rcases hcases with ⟨-, hdone, -, hlost, -⟩ | ⟨token, r₀, hgranted, -⟩
    · refine ⟨fun hloses => ?_, hdone.ret⟩
      obtain ⟨log, hlog, hrel⟩ := hclean
      obtain rfl := append_cancel_left (hlog.symm.trans (hlost hloses))
      have hfree := hrel.free_mem mem_cons_self
      simp at hfree
    · exact absurd (hgranted.symm.trans hnone) (some_ne_none token)
  have hsome : (env.attempt st.attempts).granted ≠ none →
      (env.attempt st.attempts).devinfoMalloc = true → ∃ token r₁ r₂,
        iotHttpSendMessage env fuel reportParam (st.authed token).malloc = some r₁ ∧
        iotxReportFirmwareVersion (iotHttpSendMessage env fuel reportParam) env.firmwareVersion
          (r₁.2.free (st.authed token).blocks) = some r₂ ∧
        ret = r₂.1 ∧ st' = (r₂.2.free st.blocks).free (st.blocks + 1) := by
    intro hgranted hdevinfo
    rcases hcases with ⟨hnone, -⟩ | ⟨token, r₂, -, hreports, hr⟩
    · exact absurd hnone hgranted
    · obtain ⟨r₁, hfirst, hsecond⟩ := firmware_of_reports hdevinfo hreports
      exact ⟨token, r₁, r₂, hfirst, hsecond, congrArg Prod.fst hr, congrArg Prod.snd hr⟩
  refine ⟨hreq, fun hloses => ?_, fun hnone hrsp hpost hzero => ?_,
    fun hgranted hdevinfo hexpired => ?_, fun hgranted hdevinfo hversion hfirst => ?_⟩
  · refine (hother ?_).1 hloses
    by_contra hgranted
    obtain ⟨token, htoken⟩ := ne_none_iff_exists'.mp hgranted
    unfold HttpAttempt.granted at htoken
    split_ifs at htoken with hyes
    exact absurd hloses.2.2 (not_lt.mpr (HttpAttempt.received_of_code hyes.2).2)
  · by_contra hrefused
    have hret := (hother hnone).2
    rw [HttpAttempt.authVerdict, hrsp, hpost, if_neg (by decide), if_neg hrefused, hzero] at hret
    exact absurd (hnone.symm.trans (hverdict hret).1) (some_ne_none _).symm
  · obtain ⟨token, r₁, r₂, hfirst, hsecond, -, rfl⟩ := hsome hgranted hdevinfo
    obtain ⟨-, hstops | hlost⟩ := stops_of_send (sends_report hhandle _) hexpired hfirst
    · exact hstops
    · have hfreed := hlost.free (c := (st.authed token).blocks) (Nat.succ_ne_self _).symm
      exact absurd hclean (report_loses (grows_malloc _) hfreed (firmware_grows hsecond))
  · by_contra hexpired
    rw [Bool.not_eq_false] at hexpired
    obtain ⟨token, r₁, r₂, hsent, hsecond, hret, rfl⟩ := hsome hgranted hdevinfo
    cases fuel with
    | zero =>
      rw [iotHttpSendMessage] at hsent
      exact absurd hsent.symm (some_ne_none _)
    | succ fuel =>
    rw [iotHttpSendMessage] at hsent
    have hsends₁ : sends env reportParam (st.authed token).malloc = true :=
      sends_report hhandle _
    have hfirst₁ : (env.attempt (st.authed token).malloc.attempts).expired = false := hfirst
    obtain ⟨r, hr, hdone, hkept⟩ := sendMessage_other hsends₁ hfirst₁
      (iotHttpDeviceNameAuth env fuel)
    obtain rfl := Option.some.inj (hsent.symm.trans hr)
    unfold iotxReportFirmwareVersion at hsecond
    rw [hversion, if_neg Bool.noConfusion] at hsecond
    obtain ⟨r₃, hr₃, rfl⟩ := map_eq_some_iff.mp hsecond
    have hsends : sends env reportParam (r₁.2.free (st.authed token).blocks) = true := by
      rw [sends_report hhandle]
      exact hdone.isAuthed
    have hattempts : (r₁.2.free (st.authed token).blocks).attempts = st.attempts + 2 :=
      hdone.attempts
    have hexpired' : (env.attempt (r₁.2.free (st.authed token).blocks).attempts).expired =
        true := by
      rw [hattempts]
      exact hexpired
    obtain ⟨hrecv, hstops | hlost⟩ := stops_of_send hsends hexpired' hr₃
    · have hauthed := unauthed_of_stops hsends hexpired' hstops hr₃
      have hcode := ((HttpAttempt.expired_iff _).mp hexpired').2
      have hpos := (HttpAttempt.received_of_code hcode).2
      rw [← hrecv] at hpos
      have hzero : ret = 0 := by
        rw [hret]
        exact if_neg (not_lt.mpr hpos)
      exact absurd (hauthed.symm.trans (hverdict hzero).2) Bool.noConfusion
    · have hbefore : Grows (st.authed token) (r₁.2.free (st.authed token).blocks) :=
        (clean_block hkept).grows
      exact report_loses hbefore hlost (Clean.of_eq rfl rfl).grows hclean

/-- **Authentications.** -/
theorem authSound_iff (env : HttpEnv) (st : HttpState) :
    AuthSound env st ↔ (env.handle = true → AuthOrdinary env st) := by
  constructor
  · exact fun h hhandle => authOrdinary_of_sound hhandle h
  · intro hordinary
    have hone : (-1 : ℤ) ≠ 0 := by decide
    cases hhandle : env.handle with
    | false =>
      exact ⟨1, -1, st, deviceNameAuth_handle hhandle _, fun h => absurd h hone,
        fun h => absurd (hhandle.symm.trans h) Bool.noConfusion, .of_eq rfl rfl⟩
    | true =>
      have hyes := hordinary hhandle
      cases hgranted : (env.attempt st.attempts).granted with
      | none =>
        obtain ⟨r, hr, hdone, hclean, -⟩ := deviceNameAuth_other hhandle hyes.fed hgranted
          (iotHttpSendMessage env 0 reportParam)
        refine ⟨1, r.1, r.2, hr, fun hzero => ?_, fun _ hauthed => ?_, hclean hyes.kept⟩
        · have hverdict := hdone.ret.symm.trans hzero
          unfold HttpAttempt.authVerdict at hverdict
          split_ifs at hverdict with hno hrefused
          · exact absurd hverdict (by decide)
          · rw [not_or, Bool.not_eq_false, Bool.not_eq_false] at hno
            exact absurd (hyes.verdict hgranted hno.1 hno.2 hverdict) hrefused
        · exact absurd (hdone.isAuthed.symm.trans hauthed) Bool.noConfusion
      | some token =>
        obtain ⟨r, hr, hreported⟩ := reports_sound hyes hgranted hhandle
        have hcall : iotHttpDeviceNameAuth env 3 st =
            some (r.1, (r.2.free st.blocks).free (st.blocks + 1)) := by
          show deviceNameAuth env (iotHttpSendMessage env 2 reportParam) st = _
          rw [deviceNameAuth_granted hhandle hyes.fed hgranted, hr]
          rfl
        refine ⟨3, _, _, hcall, fun hzero => ?_, fun _ hauthed => ?_, ?_⟩
        · have hauthed := hreported.authed hzero
          refine ⟨?_, hauthed⟩
          show _ = some r.2.token
          rw [hreported.token hauthed]
          exact hgranted
        · refine ⟨st.attempts, le_rfl, hreported.attempts, ?_⟩
          show _ = some r.2.token
          rw [hreported.token hauthed]
          exact hgranted
        · have hfirst : Clean st.malloc.malloc (st.authed token) := clean_reads _ 3
          exact clean_two (hfirst.trans hreported.clean)

/-- **Verdicts.**  Messages and authentications report what the server answered, and release what
they allocate, exactly when every response that comes in full says what it should, every
authentication gets a response, and no token is out of date on the way. -/
theorem http_verdict_iff (env : HttpEnv) (msg : Option HttpMessageParam) (st : HttpState) :
    (SendSound env msg st ↔ (sends env msg st = true → SendOrdinary env st)) ∧
      (AuthSound env st ↔ (env.handle = true → AuthOrdinary env st)) :=
  ⟨sendSound_iff env msg st, authSound_iff env st⟩

/-- A response that says nothing is reported as a message that was sent. -/
def silentEnv : HttpEnv := ⟨true, true, fun _ => ⟨true, true, true, true, 0, fun _ => none, true⟩⟩

/-- The response without a code is taken for an acknowledgement. -/
theorem http_verdict_broken :
    ¬ ∀ (env : HttpEnv) (msg : Option HttpMessageParam) (st : HttpState),
      SendSound env msg st ∧ AuthSound env st := by
  intro hclaim
  have hordinary := (sendSound_iff silentEnv reportParam freshState).mp
    (hclaim silentEnv reportParam freshState).1 rfl
  obtain ⟨-, -, ⟨code, hcode, -⟩, -⟩ := hordinary.answered (by decide) rfl rfl rfl
  exact some_ne_none code hcode.symm

end Iotkit.HttpApi
