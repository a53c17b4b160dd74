/-
# Reporting the binding token

`awss_report.c`: the token is reported to the cloud until a reply confirms it.  A report carries an
id from a counter of type `char`, and a reply is a confirmation unless its id is more than one
below the counter: the last report of the current token always has its reply, but so may an
earlier token or an id that was never used.
-/
import Iotkit.GuardedRun
import Iotkit.LibC

open GuardedRun LibC

namespace Iotkit.DevBind

open List hiding Vector

/-! ## The state -/

abbrev randomMaxLen : ℕ := 16

/-- The value of `aes_random`. -/
abbrev Token := Vector UInt8 randomMaxLen

def matchReportCntMax : ℤ := 2

/-- `report_token_timer`: `NULL`, stopped, or started. -/
inductive ReportTimer
  | null | stopped | started
  deriving DecidableEq

/-- The variables of `awss_report.c`, with `aes_random`; a `char` is the integer it holds. -/
structure TokenState where
  aesRandom : Token
  awssReportTokenSuc : Bool
  awssReportTokenCnt : ℤ
  awssReportId : ℤ
  awssReportTokenTime : UInt32
  reportTokenTimer : ReportTimer

/-- What a call meets: whether a timer and the packet can be allocated, what
`produce_random` produces, the clock, and the result of `awss_cmp_mqtt_send`. -/
structure ReportEnv where
  timerAlloc : Bool
  packetAlloc : Bool
  random : Token
  now : UInt32
  send : ℤ

/-- What happened to the token: a new one was produced, or one went out in a report. -/
inductive TokenEvent
  | random (token : Token)
  | report (id : ℤ) (token : Token)
  deriving DecidableEq

/-- The id of a report. -/
def TokenEvent.reportId : TokenEvent → Option ℤ
  | .report id _ => some id
  | .random _ => none

/-- The token that is produced. -/
def TokenEvent.produced : TokenEvent → Option Token
  | .report _ _ => none
  | .random token => some token

section Platform

-- whether `char` is signed
variable (charSigned : Bool)

/-- The value that a `char` gets for an `int`. -/
def toChar (x : ℤ) : ℤ := if charSigned then x.bmod 256 else x % 256

/-! ## Token and report -/

/-- `report_token_timer` is created if it is `NULL`, and started. -/
def restartTimer (timer : ReportTimer) (timerAlloc : Bool) : ReportTimer :=
  if timer = .null ∧ timerAlloc = false then .null else .started

variable (s : TokenState) (env : ReportEnv)

def awssUpdateToken : TokenState × List TokenEvent :=
  ({ s with
      awssReportTokenTime := 0
      awssReportTokenCnt := 0
      awssReportTokenSuc := false
      aesRandom := env.random
      reportTokenTimer := restartTimer s.reportTokenTimer env.timerAlloc },
    [.random env.random])

/-- `awss_report_token_to_cloud` from the point where the report is put together.  A token
that is all zero is taken for one that has not been produced. -/
def sendReport : ℤ × TokenState × List TokenEvent :=
  let produced := s.aesRandom = Vector.replicate randomMaxLen 0
  let token := if produced then env.random else s.aesRandom
  (env.send,
    { s with
      aesRandom := token
      awssReportTokenTime := env.now
      awssReportId := toChar charSigned (s.awssReportId + 1) },
    .report s.awssReportId token :: if produced then [.random token] else [])

/-- `awss_report_token_to_cloud`, with the events in it, the last one first. -/
def awssReportTokenToCloud :
    ℤ × TokenState × List TokenEvent :=
  if s.awssReportTokenSuc then (0, s, [])
  else
    let cnt := s.awssReportTokenCnt
    let s := { s with awssReportTokenCnt := toChar charSigned (cnt + 1) }
    if cnt > matchReportCntMax then (-2, { s with reportTokenTimer := .null }, [])
    else
      let s := { s with reportTokenTimer := restartTimer s.reportTokenTimer env.timerAlloc }
      if env.packetAlloc = false then (-1, s, []) else sendReport charSigned s env

def awssReportToken : ℤ × TokenState × List TokenEvent :=
  awssReportTokenToCloud charSigned { s with
      awssReportTokenCnt := 0
      awssReportTokenSuc := false } env

/-- The timer expires, if it has been started. -/
def timerTick : TokenState × List TokenEvent :=
  if s.reportTokenTimer = .started then
    (awssReportTokenToCloud charSigned { s with reportTokenTimer := .stopped } env).2
  else (s, [])

/-! ## The reply -/

/-- The id in a reply: the value that `json_get_value_by_name` finds, and the text behind
it, which does not go on with a digit. -/
structure ReplyId where
  value : Bytes
  rest : Bytes
  ends : ∀ c ∈ rest.head?, isDigit c = false

/-- `reply_id` -/
def ReplyId.char (reply : ReplyId) : ℤ := toChar charSigned (atoi (reply.value ++ reply.rest))

/-- `awss_report_token_reply`; there may be no payload or no id in it. -/
def awssReportTokenReply (reply : Option ReplyId) : TokenState :=
  match reply with
  | none => s
  | some reply =>
    if reply.char charSigned + 1 < s.awssReportId then s
    else { s with awssReportTokenSuc := true, reportTokenTimer := .null }

/-! ## Runs -/

inductive TokenOp
  | updateToken (env : ReportEnv)
  | reportToken (env : ReportEnv)
  | tick (env : ReportEnv)
  | reply (reply : Option ReplyId)

def tokenExec : TokenOp → TokenState × List TokenEvent
  | .updateToken env => awssUpdateToken s env
  | .reportToken env => (awssReportToken charSigned s env).2
  | .tick env => timerTick charSigned s env
  | .reply reply => (awssReportTokenReply charSigned s reply, [])

/-- The state, and all that has happened to tokens, the last event first. -/
structure TokenRun where
  state : TokenState
  history : List TokenEvent

variable (r : TokenRun)

def tokenStep (op : TokenOp) : TokenRun :=
  ⟨(tokenExec charSigned r.state op).1, (tokenExec charSigned r.state op).2 ++ r.history⟩

def TokenRun.start : TokenRun :=
  ⟨⟨Vector.replicate randomMaxLen 0, false, 0, 0, 0, .null⟩, []⟩

/-- The reply has the id of a report that carried the current token. -/
def TokenRun.Carried (reply : ReplyId) : Prop :=
  ∃ id, TokenEvent.report id r.state.aesRandom ∈ r.history ∧ reply.value = uintText id

/-- The id of the last report since a token was produced. -/
def TokenRun.lastId : Option ℤ :=
  match r.history with
  | .report id _ :: _ => some id
  | _ => none

/-- A token gets confirmed only by a reply with the id of a report that carried it. -/
def ConfirmedByCarried (op : TokenOp) : Prop :=
  r.state.awssReportTokenSuc = false → (tokenStep charSigned r op).state.awssReportTokenSuc = true →
    ∃ reply, op = .reply (some reply) ∧ r.Carried reply

/-- A reply to the last report of the token confirms it. -/
def LastReportConfirms (op : TokenOp) : Prop :=
  ∀ reply id, op = .reply (some reply) → r.lastId = some id → reply.value = uintText id →
    (tokenStep charSigned r op).state.awssReportTokenSuc = true

/-- The ids of the reports so far, the last one first. -/
def TokenRun.issued : List ℤ := r.history.filterMap TokenEvent.reportId

/-- The ids of the reports before any other event. -/
def currentIds : List TokenEvent → List ℤ
  | .report id _ :: before => id :: currentIds before
  | _ => []

/-- The ids of the reports since the current token was produced. -/
def TokenRun.current : List ℤ := currentIds r.history

/-- The tokens that have been produced, the last one first. -/
def TokenRun.tokens : List Token := r.history.filterMap TokenEvent.produced

/-- The reply has the id of a report that was sent: since the current token was produced, or before,
but then it is not the last one, and the counter has not wrapped since. -/
def TokenRun.Timely (reply : ReplyId) : Prop :=
  ∃ k id, r.issued[k]? = some id ∧ reply.value = uintText id ∧
    (k < r.current.length ∨ 0 < k ∧ id + k + 1 = r.state.awssReportId)

/-- No report had the id of the reply, which is more than one below the counter. -/
def TokenRun.Foreign (reply : ReplyId) : Prop :=
  (∀ id ∈ r.issued, reply.value ≠ uintText id) ∧ reply.char charSigned + 1 < r.state.awssReportId

/-- A reply that meets an unconfirmed token is timely, or it is foreign and below the counter. -/
def TokenOp.Answers : TokenOp → Prop
  | .reply (some id) => r.state.awssReportTokenSuc = false →
      r.Timely id ∨ r.Foreign charSigned id
  | _ => True

/-! ## The counter -/

variable {charSigned}

theorem toChar_emod (charSigned : Bool) (x : ℤ) : toChar charSigned x % 256 = x % 256 := by
  unfold toChar
  cases charSigned
  · exact Int.emod_emod_of_dvd x (dvd_refl 256)
  · exact Int.bmod_emod

theorem toChar_congr {x y : ℤ} (h : x % 256 = y % 256) :
    toChar charSigned x = toChar charSigned y := by
  unfold toChar
  rw [Int.bmod_def, Int.bmod_def]
  simp only [Nat.cast_ofNat, h]

/-- A `char` is one of 256 numbers in a row. -/
theorem toChar_bounds (charSigned : Bool) :
    ∃ low : ℤ, -128 ≤ low ∧ low ≤ 0 ∧
      ∀ x, low ≤ toChar charSigned x ∧ toChar charSigned x < low + 256 := by
  cases charSigned
  · refine ⟨0, by decide, le_rfl, fun x => ?_⟩
    simp only [toChar, Bool.false_eq_true, if_false]
    omega
  · refine ⟨-128, le_rfl, by decide, fun x => ?_⟩
    have hlow := Int.le_bmod (x := x) (m := 256) (by decide)
    have hhigh := Int.bmod_lt (x := x) (m := 256) (by decide)
    simp only [toChar, if_true]
    omega

/-- The id that `k` reports followed is more than one below the counter exactly when there was
one, and the counter has not wrapped since. -/
theorem toChar_before_lt_iff {c : ℤ} (hc : toChar charSigned c = c) {k : ℕ} (hk : k < 256) :
    toChar charSigned (c - 1 - k) + 1 < c ↔ 0 < k ∧ toChar charSigned (c - 1 - k) + k + 1 = c := by
  obtain ⟨low, -, -, hbounds⟩ := toChar_bounds charSigned
  have hcount := hbounds c
  have hid := hbounds (c - 1 - k)
  have hmod := toChar_emod charSigned (c - 1 - k)
  rw [hc] at hcount
  omega

theorem ReplyId.char_of_value {reply : ReplyId} {id : ℤ} (hid : toChar charSigned id = id)
    (h : reply.value = uintText id) : reply.char charSigned = id := by
  obtain ⟨low, hlow, hzero, hbounds⟩ := toChar_bounds charSigned
  have hid' := hbounds id
  rw [hid] at hid'
  rw [ReplyId.char, h, atoi_uintText_append (by omega) (by omega) reply.ends, hid]

/-! ## The history -/

/-- Every report carries the token that was produced last before it. -/
def CarriesLast : List TokenEvent → Prop
  | [] => True
  | .report _ token :: before =>
    (before.filterMap TokenEvent.produced).head? = some token ∧ CarriesLast before
  | .random _ :: before => CarriesLast before

section History

variable {events : List TokenEvent}

/-- The reports since the current token was produced carry it. -/
theorem CarriesLast.carried (hh : CarriesLast events) {id : ℤ} (hid : id ∈ currentIds events) :
    ∃ token, (events.filterMap TokenEvent.produced).head? = some token ∧
      TokenEvent.report id token ∈ events := by
  induction events with
  | nil => cases hid
  | cons e before ih =>
    cases e with
    | random token => cases hid
    | report id' token =>
      obtain ⟨hlast, hbefore⟩ := hh
      rcases mem_cons.mp hid with rfl | hid
      · exact ⟨token, hlast, mem_cons_self⟩
      · obtain ⟨token', htoken, hmem⟩ := ih hbefore hid
        exact ⟨token', htoken, mem_cons_of_mem _ hmem⟩

theorem CarriesLast.produced (hh : CarriesLast events) {id : ℤ} {token : Token}
    (hmem : TokenEvent.report id token ∈ events) : token ∈ events.filterMap TokenEvent.produced := by
  induction events with
  | nil => cases hmem
  | cons e before ih =>
    cases e with
    | random token' =>
      exact mem_cons_of_mem _ (ih hh ((mem_cons.mp hmem).resolve_left (by simp)))
    | report id' token' =>
      rcases mem_cons.mp hmem with heq | hmem
      · obtain ⟨-, rfl⟩ := TokenEvent.report.inj heq
        exact mem_of_mem_head? hh.1
      · exact ih hh.2 hmem

/-- Where no token is produced twice, only the reports since the current one carry it. -/
theorem CarriesLast.mem_current (hh : CarriesLast events)
    (hnodup : (events.filterMap TokenEvent.produced).Nodup) {id : ℤ} {token : Token}
    (htoken : (events.filterMap TokenEvent.produced).head? = some token)
    (hmem : TokenEvent.report id token ∈ events) : id ∈ currentIds events := by
  induction events with
  | nil => cases hmem
  | cons e before ih =>
    cases e with
    | random token' =>
      have hlast : CarriesLast before := hh
      have hbefore := hlast.produced ((mem_cons.mp hmem).resolve_left (by simp))
      obtain rfl : token' = token := Option.some.inj htoken
      exact absurd hbefore (nodup_cons.mp hnodup).1
    | report id' token' =>
      rcases mem_cons.mp hmem with heq | hmem
      · exact mem_cons.mpr (.inl (TokenEvent.report.inj heq).1)
      · exact mem_cons_of_mem _ (ih hh.2 hnodup htoken hmem)

/-- The reports of the current token are the last ones. -/
theorem currentIds_append (events : List TokenEvent) :
    ∃ older, events.filterMap TokenEvent.reportId = currentIds events ++ older := by
  induction events with
  | nil => exact ⟨[], rfl⟩
  | cons e before ih =>
    cases e with
    | random token => exact ⟨_, rfl⟩
    | report id token =>
      obtain ⟨older, holder⟩ := ih
      exact ⟨older, congrArg (id :: ·) holder⟩

theorem TokenRun.issued_eq : ∃ older, r.issued = r.current ++ older :=
  currentIds_append r.history

end History

/-! ## What a call does -/

/-- What a call that finds `token`, and `id` as the next id, can make of them and of the history:
nothing, or a report takes the id, after a token is produced in place of one that is all zero. -/
inductive ReportCase (charSigned : Bool) (id : ℤ) (token : Token) (s : TokenState)
    (events : List TokenEvent) : Prop
  | none (hevents : events = []) (htoken : s.aesRandom = token) (hid : s.awssReportId = id)
  | report (hevents : events = [.report id token]) (htoken : s.aesRandom = token)
      (hset : token ≠ Vector.replicate randomMaxLen 0)
      (hid : s.awssReportId = toChar charSigned (id + 1))
  | first (hevents : events = [.report id s.aesRandom, .random s.aesRandom])
      (hid : s.awssReportId = toChar charSigned (id + 1))
  | update (hevents : events = [.random s.aesRandom]) (hid : s.awssReportId = id)

theorem sendReport_case :
    ReportCase charSigned s.awssReportId s.aesRandom (sendReport charSigned s env).2.1
      (sendReport charSigned s env).2.2 := by
  unfold sendReport
  by_cases hzero : s.aesRandom = Vector.replicate randomMaxLen 0
  · simp only [hzero, if_true]
    exact .first rfl rfl
  · simp only [hzero, if_false]
    exact .report rfl rfl hzero rfl

theorem awssReportTokenToCloud_case (charSigned : Bool) (s : TokenState) (env : ReportEnv) :
    let r := (awssReportTokenToCloud charSigned s env).2
    r.1.awssReportTokenSuc = s.awssReportTokenSuc ∧
      ReportCase charSigned s.awssReportId s.aesRandom r.1 r.2 := by
  unfold awssReportTokenToCloud
  simp only
  split_ifs
  · exact ⟨rfl, .none rfl rfl rfl⟩
  · exact ⟨rfl, .none rfl rfl rfl⟩
  · exact ⟨rfl, .none rfl rfl rfl⟩
  · exact ⟨rfl, sendReport_case { s with
        awssReportTokenCnt := toChar charSigned (s.awssReportTokenCnt + 1)
        reportTokenTimer := restartTimer s.reportTokenTimer env.timerAlloc } env⟩

/-- Only a reply that is not too far below the counter confirms a token. -/
theorem tokenExec_case (charSigned : Bool) (s : TokenState) (op : TokenOp) :
    let r := tokenExec charSigned s op
    ReportCase charSigned s.awssReportId s.aesRandom r.1 r.2 ∧
    (s.awssReportTokenSuc = false → r.1.awssReportTokenSuc = true →
      ∃ reply, op = .reply (some reply) ∧ ¬ reply.char charSigned + 1 < s.awssReportId) := by
  cases op with
  | updateToken env => exact ⟨.update rfl rfl, fun _ h => by cases h⟩
  | reportToken env =>
    obtain ⟨hsuc, hcase⟩ := awssReportTokenToCloud_case charSigned { s with
        awssReportTokenCnt := 0
        awssReportTokenSuc := false } env
    exact ⟨hcase, fun _ h => absurd (hsuc.symm.trans h) Bool.false_ne_true⟩
  | tick env =>
    show ReportCase _ _ _ (timerTick charSigned s env).1 (timerTick charSigned s env).2 ∧
      (_ → (timerTick charSigned s env).1.awssReportTokenSuc = true → _)
    simp only [timerTick]
    split_ifs
    · obtain ⟨hsuc, hcase⟩ := awssReportTokenToCloud_case charSigned
        { s with reportTokenTimer := .stopped } env
      refine ⟨hcase, fun hno h => ?_⟩
      exact absurd (hno.symm.trans (hsuc.symm.trans h)) (by decide)
    · refine ⟨.none rfl rfl rfl, fun hno h => ?_⟩
      exact absurd (hno.symm.trans h) (by decide)
  | reply reply =>
    cases reply with
    | none =>
      refine ⟨.none rfl rfl rfl, fun hno h => ?_⟩
      exact absurd (hno.symm.trans h) (by decide)
    | some reply =>
      by_cases hold : reply.char charSigned + 1 < s.awssReportId
      · have hexec : tokenExec charSigned s (.reply (some reply)) = (s, []) :=
          congrArg (·, []) (if_pos hold)
        rw [hexec]
        refine ⟨.none rfl rfl rfl, fun hno h => ?_⟩
        exact absurd (hno.symm.trans h) (by decide)
      · have hexec : tokenExec charSigned s (.reply (some reply))
            = ({ s with awssReportTokenSuc := true, reportTokenTimer := .null }, []) :=
          congrArg (·, []) (if_neg hold)
        rw [hexec]
        exact ⟨.none rfl rfl rfl, fun _ _ => ⟨reply, rfl, hold⟩⟩

theorem tokenStep_reply {r : TokenRun} {reply : ReplyId}
    (h : ¬ reply.char charSigned + 1 < r.state.awssReportId) :
    (tokenStep charSigned r (.reply (some reply))).state
      = { r.state with awssReportTokenSuc := true, reportTokenTimer := .null } :=
  if_neg h

/-! ## Every step of every run -/

/-- The counter is a `char`, the report that `k` others followed has the id `k + 1` before it, and
every report carried the token that was produced last, which is the current one. -/
structure TokenRun.Inv (charSigned : Bool) (r : TokenRun) : Prop where
  char : toChar charSigned r.state.awssReportId = r.state.awssReportId
  ids : ∀ (k : ℕ) (id : ℤ), r.issued[k]? = some id →
    id = toChar charSigned (r.state.awssReportId - 1 - k)
  carries : CarriesLast r.history
  token : r.tokens.head? = some r.state.aesRandom ∨
    r.tokens = [] ∧ r.state.aesRandom = Vector.replicate randomMaxLen 0

theorem TokenRun.inv_start : TokenRun.start.Inv charSigned where
  char := by cases charSigned <;> rfl
  ids k id hid := by cases hid
  carries := trivial
  token := .inr ⟨rfl, rfl⟩

/-- A report moves the ids of those before it one back. -/
theorem ids_report {c : ℤ} (hc : toChar charSigned c = c) {ids : List ℤ}
    (hids : ∀ (k : ℕ) (id : ℤ), ids[k]? = some id → id = toChar charSigned (c - 1 - k)) (k : ℕ)
    (id : ℤ) (hid : (c :: ids)[k]? = some id) :
    id = toChar charSigned (toChar charSigned (c + 1) - 1 - k) := by
  have hnext := toChar_emod charSigned (c + 1)
  cases k with
  | zero =>
    obtain rfl : c = id := Option.some.inj hid
    refine hc.symm.trans (toChar_congr ?_)
    omega
  | succ k =>
    refine (hids k id hid).trans (toChar_congr ?_)
    push_cast
    omega

theorem TokenRun.Inv.step {r : TokenRun} (h : r.Inv charSigned) (op : TokenOp) :
    (tokenStep charSigned r op).Inv charSigned := by
  obtain ⟨hcase, -⟩ := tokenExec_case charSigned r.state op
  obtain ⟨hchar, hids, hcarries, htokens⟩ := h
  unfold tokenStep
  generalize tokenExec charSigned r.state op = e at hcase ⊢
  obtain ⟨s', events⟩ := e
  cases hcase with
  | none hevents htoken hid =>
    simp only at hevents htoken hid
    subst hevents
    refine ⟨?_, ?_, hcarries, ?_⟩
    · rw [hid]
      exact hchar
    · rw [hid]
      exact hids
    · rw [htoken]
      exact htokens
  | report hevents htoken hset hid =>
    simp only at hevents htoken hid
    subst hevents
    -- a token that is not zero has been produced
    have hlast := htokens.resolve_right fun hzero => hset hzero.2
    refine ⟨?_, ?_, ⟨hlast, hcarries⟩, .inl ?_⟩
    · rw [hid]
      exact toChar_congr (toChar_emod charSigned _)
    · rw [hid]
      exact ids_report hchar hids
    · rw [htoken]
      exact hlast
  | first hevents hid =>
    simp only at hevents hid
    subst hevents
    refine ⟨?_, ?_, ⟨rfl, hcarries⟩, .inl rfl⟩
    · rw [hid]
      exact toChar_congr (toChar_emod charSigned _)
    · rw [hid]
      exact ids_report hchar hids
  | update hevents hid =>
    simp only at hevents hid
    subst hevents
    refine ⟨?_, ?_, hcarries, .inl rfl⟩
    · rw [hid]
      exact hchar
    · rw [hid]
      exact hids

section Inv

variable {r : TokenRun} (h : r.Inv charSigned)
include h

theorem TokenRun.Inv.char_of_issued {id : ℤ} (hid : id ∈ r.issued) :
    toChar charSigned id = id := by
  obtain ⟨k, hk⟩ := mem_iff_getElem?.mp hid
  rw [h.ids k id hk]
  exact toChar_congr (toChar_emod charSigned _)

theorem TokenRun.Inv.lastReportConfirms (op : TokenOp) : LastReportConfirms charSigned r op := by
  rintro reply id rfl hlast hvalue
  have hfirst : r.issued[0]? = some id := by
    unfold TokenRun.lastId at hlast
    split at hlast
    · next heq =>
      rw [TokenRun.issued, heq]
      exact hlast
    · cases hlast
  have hnot : ¬ reply.char charSigned + 1 < r.state.awssReportId := by
    rw [ReplyId.char_of_value (h.char_of_issued (mem_of_getElem? hfirst)) hvalue,
      h.ids 0 id hfirst, toChar_before_lt_iff h.char (by decide)]
    exact fun hbefore => absurd hbefore.1 (lt_irrefl 0)
  rw [tokenStep_reply hnot]

/-- The reports since the current token was produced carried it. -/
theorem TokenRun.Inv.carried {id : ℤ} (hid : id ∈ r.current) :
    TokenEvent.report id r.state.aesRandom ∈ r.history := by
  obtain ⟨token, htoken, hmem⟩ := h.carries.carried hid
  rcases h.token with hlast | ⟨hnone, -⟩
  · rw [Option.some.inj (hlast.symm.trans htoken)]
    exact hmem
  · rw [TokenRun.tokens] at hnone
    rw [hnone] at htoken
    cases htoken

/-- A reply that is timely, or foreign, confirms only a token that its report carried. -/
theorem TokenRun.Inv.confirmedByCarried {op : TokenOp} (hop : op.Answers charSigned r) :
    ConfirmedByCarried charSigned r op := by
  intro hno hyes
  obtain ⟨reply, rfl, hnot⟩ := (tokenExec_case charSigned r.state op).2 hno hyes
  rcases hop hno with ⟨k, id, hid, hvalue, hk | ⟨hpos, hsum⟩⟩ | ⟨-, hold⟩
  · obtain ⟨older, holder⟩ := r.issued_eq
    rw [holder, List.getElem?_append_left hk] at hid
    exact ⟨reply, rfl, id, h.carried (mem_of_getElem? hid), hvalue⟩
  · rw [ReplyId.char_of_value (h.char_of_issued (mem_of_getElem? hid)) hvalue] at hnot
    omega
  · exact absurd hold hnot

/-- An id that was issued belongs to one of the last 256 reports. -/
theorem TokenRun.Inv.issued_recent {id : ℤ} (hid : id ∈ r.issued) :
    ∃ k < 256, r.issued[k]? = some id := by
  obtain ⟨k, hk⟩ := mem_iff_getElem?.mp hid
  have hlen := (List.getElem?_eq_some_iff.mp hk).1
  refine ⟨k % 256, Nat.mod_lt _ (by decide), ?_⟩
  have hlt : k % 256 < r.issued.length := (Nat.mod_le _ _).trans_lt hlen
  rw [List.getElem?_eq_getElem hlt, h.ids k id hk,
    h.ids _ _ (List.getElem?_eq_getElem hlt)]
  refine congrArg some (toChar_congr ?_)
  push_cast
  omega

/-- Where no token is produced twice, a reply that is neither timely nor foreign confirms a token
that its report did not carry. -/
theorem TokenRun.Inv.answers (hnodup : r.tokens.Nodup) {op : TokenOp}
    (hop : ConfirmedByCarried charSigned r op) : op.Answers charSigned r := by
  cases op with
  | updateToken env => trivial
  | reportToken env => trivial
  | tick env => trivial
  | reply reply =>
    cases reply with
    | none => trivial
    | some reply =>
      intro hno
      -- a reply that is not turned away is one to a report of the token
      have hcarried (hnot : ¬ reply.char charSigned + 1 < r.state.awssReportId) :
          ∃ id ∈ r.current, reply.value = uintText id := by
        obtain ⟨reply', heq, id, hmem, hvalue⟩ := hop hno (by rw [tokenStep_reply hnot])
        obtain rfl : reply = reply' := Option.some_inj.mp (TokenOp.reply.inj heq)
        have hlast : r.tokens.head? = some r.state.aesRandom := by
          refine h.token.resolve_right fun hnone => ?_
          have hproduced : _ ∈ r.tokens := h.carries.produced hmem
          rw [hnone.1] at hproduced
          cases hproduced
        exact ⟨id, h.carries.mem_current hnodup hlast hmem, hvalue⟩
      obtain ⟨older, holder⟩ := r.issued_eq
      by_cases hforeign : ∀ id ∈ r.issued, reply.value ≠ uintText id
      · refine .inr ⟨hforeign, ?_⟩
        by_contra hnot
        obtain ⟨id, hid, hvalue⟩ := hcarried hnot
        refine hforeign id ?_ hvalue
        rw [holder]
        exact mem_append_left _ hid
      push Not at hforeign
      obtain ⟨id, hid, hvalue⟩ := hforeign
      have hchar := ReplyId.char_of_value (h.char_of_issued hid) hvalue
      obtain ⟨k, hk, hid⟩ := h.issued_recent hid
      left
      by_cases hold : reply.char charSigned + 1 < r.state.awssReportId
      · refine ⟨k, id, hid, hvalue, .inr ?_⟩
        rw [hchar, h.ids k id hid, toChar_before_lt_iff h.char hk] at hold
        rw [h.ids k id hid]
        exact hold
      obtain ⟨id', hid', hvalue'⟩ := hcarried hold
      obtain ⟨j, hj⟩ := mem_iff_getElem?.mp hid'
      have hjlt := (List.getElem?_eq_some_iff.mp hj).1
      refine ⟨j, id', ?_, hvalue', .inl hjlt⟩
      rw [holder, List.getElem?_append_left hjlt]
      exact hj

end Inv

variable (charSigned)

/-- **Replies and reports.**  In every run, for either kind of `char`: a reply to the last report of
the current token confirms it; and only a reply with the id of a report that carried it does, as
long as every reply that meets an unconfirmed token answers a report in time, or is foreign and
below the counter.  Where no token is produced twice, this condition is exact. -/
theorem token_confirmed_iff (ops : List TokenOp) :
    AllSteps (tokenStep charSigned) (LastReportConfirms charSigned) TokenRun.start ops ∧
      (AllSteps (tokenStep charSigned) (fun r op => op.Answers charSigned r) TokenRun.start ops →
        AllSteps (tokenStep charSigned) (ConfirmedByCarried charSigned) TokenRun.start ops) ∧
      (AllSteps (tokenStep charSigned) (fun r _ => r.tokens.Nodup) TokenRun.start ops →
        AllSteps (tokenStep charSigned) (ConfirmedByCarried charSigned) TokenRun.start ops →
          AllSteps (tokenStep charSigned) (fun r op => op.Answers charSigned r)
            TokenRun.start ops) := by
  have hall : AllSteps (tokenStep charSigned) (fun r _ => r.Inv charSigned) TokenRun.start ops :=
    allSteps_of_inv (fun r op (h : r.Inv charSigned) => h.step op) TokenRun.inv_start ops
  refine ⟨?_, fun hanswers => ?_, fun hnodup hcarried => ?_⟩
  · exact hall.mono fun _ op h => h.lastReportConfirms op
  · exact (hall.and hanswers).mono fun _ _ h => h.1.confirmedByCarried h.2
  · exact ((hall.and hnodup).and hcarried).mono fun _ _ h => h.1.1.answers h.1.2 h.2

end Platform

/-! ## A late reply -/

/-- Memory can be had, and `produce_random` fills the token with `byte`. -/
def reportEnv (byte : UInt8) : ReportEnv :=
  ⟨true, true, Vector.replicate randomMaxLen byte, 1000, 0⟩

def replyZero : ReplyId := ⟨[0x30], [0x22], by simp [isDigit]⟩

/-- The first token goes out with the ids 0 and 1, and the second one with the id 2: the late reply
to the id 0 is turned away, and that to the id 2 confirms the second token. -/
theorem token_confirmed_in_time :
    let replyTwo : ReplyId := ⟨[0x32], [0x22], by simp [isDigit]⟩
    let ops := [TokenOp.reportToken (reportEnv 1), .reportToken (reportEnv 1),
      .updateToken (reportEnv 2), .reportToken (reportEnv 2), .reply (some replyZero)]
    (tokenStep true (ops.foldl (tokenStep true) .start)
        (.reply (some replyTwo))).state.awssReportTokenSuc = true ∧
      AllSteps (tokenStep true) (ConfirmedByCarried true) .start
        (ops ++ [.reply (some replyTwo)]) := by
  intro replyTwo ops
  refine ⟨by decide +kernel, (token_confirmed_iff true _).2.1 ?_⟩
  refine ⟨trivial, trivial, trivial, trivial, fun _ => .inl ?_, fun _ => .inl ?_, trivial⟩
  · exact ⟨2, 0, by decide +kernel, by decide, .inr ⟨by decide, by decide +kernel⟩⟩
  · exact ⟨0, 2, by decide +kernel, by decide, .inl (by decide +kernel)⟩

/-- The first token goes out with the id 0 and is replaced; then the reply to its report
comes, and confirms the new token, which has not been reported at all. -/
theorem token_confirmed_by_late_reply :
    let ops := [TokenOp.reportToken (reportEnv 1), .updateToken (reportEnv 2)]
    let r := ops.foldl (tokenStep true) TokenRun.start
    r.history = [.random (reportEnv 2).random, .report 0 (reportEnv 1).random,
        .random (reportEnv 1).random] ∧
      r.state.aesRandom = (reportEnv 2).random ∧
      (tokenStep true r (.reply (some replyZero))).state.awssReportTokenSuc = true ∧
      ¬ ConfirmedByCarried true r (.reply (some replyZero)) := by
  intro ops r
  have hhistory : r.history = [.random (reportEnv 2).random, .report 0 (reportEnv 1).random,
      .random (reportEnv 1).random] := by decide
  have htoken : r.state.aesRandom = (reportEnv 2).random := rfl
  have hsuc : (tokenStep true r (.reply (some replyZero))).state.awssReportTokenSuc = true := by
    decide
  refine ⟨hhistory, htoken, hsuc, fun h => ?_⟩
  obtain ⟨reply, -, id, hmem, -⟩ := h rfl hsuc
  rw [hhistory, htoken] at hmem
  revert hmem
  simp only [mem_cons, not_mem_nil, reduceCtorEq, TokenEvent.report.injEq, false_or,
    or_false]
  rintro ⟨-, htokens⟩
  exact absurd htokens (by decide)

end Iotkit.DevBind
