/-
# Notification sessions (`awss_notify.c`)

A notification is repeated by a timer until it is acknowledged or has gone out often enough.  The
notifier of the binding token waits until the token is reported, and where it then finds no timer,
it creates one that calls the function which starts the session.
-/
import Iotkit.GuardedRun

open GuardedRun

namespace Iotkit.DevBind

open List Option

/-! ## The state -/

def awssNotifyCntMax : ℕ := 30

/-- The function that a timer was created with: the notifier, or the one that starts the
session. -/
inductive NotifyCallback where
  | again
  | start
  deriving DecidableEq

/-- A timer, and whether it is started. -/
structure NotifyTimer where
  callback : NotifyCallback
  armed : Bool
  deriving DecidableEq

/-- The variables of a notifier; `resp` is its entry of `awss_notify_resp`, and `mutex` says
whether its mutex exists. -/
structure NotifyVars where
  cnt : ℕ
  interval : ℕ
  resp : Bool
  timer : Option NotifyTimer
  mutex : Bool
  deriving DecidableEq

/-- The variables are zero at first. -/
def NotifyVars.zero : NotifyVars := ⟨0, 0, false, none, false⟩

/-- What a call meets: whether the mutex and the timer can be created, the values of
`awss_report_token_suc` and `awss_token_timeout`, and whether the response comes while the
notification is sent. -/
structure NotifyEnv where
  mutexAlloc : Bool
  timerAlloc : Bool
  tokenSuc : Bool
  tokenTimeout : Bool
  ack : Bool

/-- What happens in a session: an event for the user, a notification, a start of the timer with
its interval, one that waits for the token, a response, or a stop. -/
inductive NotifyEvent where
  | post
  | notify
  | arm (ms : ℕ)
  | wait
  | ack
  | stop
  deriving DecidableEq

/-! ## The notifiers -/

/-- A timer is created if there is none, and started. -/
def armTimer (timer : Option NotifyTimer) (callback : NotifyCallback) (alloc : Bool) :
    Option NotifyTimer :=
  match timer with
  | some t => some { t with armed := true }
  | none => if alloc then some ⟨callback, true⟩ else none

/-- The end of a notifier: everything is reset and released. -/
def NotifyVars.finish : NotifyVars := .zero

/-- A notification goes out, and perhaps its response comes. -/
def notifyEvents (env : NotifyEnv) : List NotifyEvent :=
  .notify :: if env.ack then [.ack] else []

/-- A start of the timer, if there is one. -/
def armEvents (timer : Option NotifyTimer) (event : NotifyEvent) : List NotifyEvent :=
  if timer.isSome then [event] else []

/-- `__awss_suc_notify` and `__awss_devinfo_notify`; the first one posts an event. -/
def notifyAgain (posts : Bool) (s : NotifyVars) (env : NotifyEnv) :
    NotifyVars × List NotifyEvent :=
  if s.mutex = false ∧ env.mutexAlloc = false then (s, [])
  else
    let posted : List NotifyEvent := if posts = true ∧ s.cnt = 0 then [.post] else []
    if s.resp = true then (.finish, posted)
    else
      let interval := s.interval + 100
      if s.cnt < awssNotifyCntMax ∧ env.ack = false then
        let timer := armTimer s.timer .again env.timerAlloc
        (⟨s.cnt + 1, interval, false, timer, true⟩,
          posted ++ notifyEvents env ++ armEvents timer (.arm interval))
      else (.finish, posted ++ notifyEvents env)

/-- `__awss_suc_notify` -/
def awssSucNotifyAgain : NotifyVars → NotifyEnv → NotifyVars × List NotifyEvent :=
  notifyAgain true

/-- `__awss_devinfo_notify` -/
def awssDevinfoNotifyAgain : NotifyVars → NotifyEnv → NotifyVars × List NotifyEvent :=
  notifyAgain false

/-- `__awss_dev_bind_notify` -/
def awssDevBindNotifyAgain (s : NotifyVars) (env : NotifyEnv) : NotifyVars × List NotifyEvent :=
  if env.tokenSuc = false then
    let timer := armTimer s.timer .again env.timerAlloc
    ({ s with timer := timer }, armEvents timer .wait)
  else if s.mutex = false ∧ env.mutexAlloc = false then (s, [])
  else
    let posted : List NotifyEvent := if s.cnt = 0 then [.post] else []
    if s.resp = true then (.finish, posted)
    else
      -- no notification goes out for a token that is out of date
      let cnt := if env.tokenTimeout = false then s.cnt + 1 else s.cnt
      let interval := if env.tokenTimeout = false then s.interval + 100 else s.interval
      let sent := if env.tokenTimeout = false then notifyEvents env
        else if env.ack then [.ack] else []
      if cnt < awssNotifyCntMax ∧ env.ack = false then
        let timer := armTimer s.timer .start env.timerAlloc
        (⟨cnt, interval, false, timer, true⟩, posted ++ sent ++ armEvents timer (.arm interval))
      else (.finish, posted ++ sent)

inductive Notifier where
  | devBind
  | suc
  | devinfo
  deriving DecidableEq

/-- The function that the timer is to call. -/
def Notifier.again : Notifier → NotifyVars → NotifyEnv → NotifyVars × List NotifyEvent
  | .devBind => awssDevBindNotifyAgain
  | .suc => awssSucNotifyAgain
  | .devinfo => awssDevinfoNotifyAgain

variable (n : Notifier)

/-- `awss_dev_bind_notify`, `awss_suc_notify` and `awss_devinfo_notify` -/
def Notifier.start (s : NotifyVars) (env : NotifyEnv) :
    NotifyVars × List NotifyEvent :=
  n.again { s with cnt := 0, interval := 0, resp := false } env

/-- `awss_dev_bind_notify_stop`, `awss_suc_notify_stop` and `awss_devinfo_notify_stop` -/
def notifyStop (s : NotifyVars) : NotifyVars :=
  { s with resp := true, cnt := awssNotifyCntMax, timer := none, mutex := false }

def Notifier.tick (s : NotifyVars) (env : NotifyEnv) :
    NotifyVars × List NotifyEvent :=
  match s.timer with
  | some ⟨.again, true⟩ => n.again { s with timer := some ⟨.again, false⟩ } env
  | some ⟨.start, true⟩ => n.start { s with timer := some ⟨.start, false⟩ } env
  | _ => (s, [])

/-! ## Sessions -/

inductive NotifyOp where
  | tick (env : NotifyEnv)
  | ack
  | stop

def Notifier.exec (s : NotifyVars) : NotifyOp → NotifyVars × List NotifyEvent
  | .tick env => n.tick s env
  | .ack => ({ s with resp := true }, [.ack])
  | .stop => (notifyStop s, [.stop])

/-- The variables, and what has happened in the session. -/
structure NotifyRun where
  vars : NotifyVars
  log : List NotifyEvent

def Notifier.step (r : NotifyRun) (op : NotifyOp) : NotifyRun :=
  ⟨(n.exec r.vars op).1, r.log ++ (n.exec r.vars op).2⟩

def Notifier.session (s : NotifyVars) (env : NotifyEnv) (ops : List NotifyOp) :
    NotifyRun :=
  ops.foldl n.step ⟨(n.start s env).1, (n.start s env).2⟩

/-- Sessions one after the other, each from the variables that the one before has left. -/
def Notifier.sessions (before : List (NotifyEnv × List NotifyOp)) : NotifyVars :=
  before.foldl (fun s p => (n.session s p.1 p.2).vars) .zero

/-! ## What a session is to do -/

/-- The intervals that the timer was started with. -/
def NotifyRun.arms (r : NotifyRun) : List ℕ :=
  r.log.filterMap fun
    | .arm ms => some ms
    | _ => none

def NotifyVars.armed (s : NotifyVars) : Bool := (s.timer.map (·.armed)).getD false

/-- There are at most so many notifications, the intervals grow by 100, and when the timer is no
longer started, counter and interval are zero and the timer is released. -/
structure SessionBounded (r : NotifyRun) : Prop where
  sent : r.log.count .notify ≤ awssNotifyCntMax + 1
  arms : r.arms = (List.range r.arms.length).map fun k => 100 * (k + 1)
  ends : r.vars.armed = false → r.vars.cnt = 0 ∧ r.vars.interval = 0 ∧ r.vars.timer = none

/-- No notification goes out after a response or a stop. -/
def Silenced (log : List NotifyEvent) : Prop :=
  log.Pairwise fun a b => a = .ack ∨ a = .stop → b ≠ .notify

/-- No response comes, and the token is not out of date. -/
def NotifyEnv.Quiet (env : NotifyEnv) : Prop :=
  env.ack = false ∧ (n = .devBind → env.tokenTimeout = false)

/-- A notification is due: the token has been reported, where it is to be. -/
def Notifier.due (env : NotifyEnv) : Bool := n ≠ .devBind || env.tokenSuc

/-- The session gets a timer that calls the notifier: there is one that does, or the one that is
created does, which the notifier of the binding token creates only as long as the token is not
reported. -/
def Carried (s : NotifyVars) (env : NotifyEnv) : Prop :=
  match s.timer with
  | some t => t.callback = .again
  | none => if n = .devBind then env.tokenSuc = false else env.timerAlloc = true

/-! ## One call -/

/-- The notifications that are followed by a start of the timer. -/
def Notifier.limit : Notifier → ℕ
  | .devBind => awssNotifyCntMax - 1
  | .suc => awssNotifyCntMax
  | .devinfo => awssNotifyCntMax

variable {timer : Option NotifyTimer}

theorem armTimer_again (h : ∀ t, timer = some t → t.callback = .again) (hsome : timer.isSome = true)
    (callback : NotifyCallback) (alloc : Bool) :
    armTimer timer callback alloc = some ⟨.again, true⟩ := by
  obtain ⟨t, rfl⟩ := isSome_iff_exists.mp hsome
  show some (⟨t.callback, true⟩ : NotifyTimer) = _
  rw [h t rfl]

/-- The variables after `k` notifications of a session. -/
structure NotifyVars.After (s : NotifyVars) (k : ℕ) : Prop where
  cnt : s.cnt = k
  interval : s.interval = 100 * k
  resp : s.resp = false

/-- The function that a notifier creates its timer with after a notification. -/
def Notifier.callback : Notifier → NotifyCallback
  | .devBind => .start
  | .suc => .again
  | .devinfo => .again

variable {s : NotifyVars} {env : NotifyEnv} {k : ℕ}

theorem mutex_of_or (hmutex : s.mutex = true ∨ env.mutexAlloc = true) :
    ¬ (s.mutex = false ∧ env.mutexAlloc = false) := by
  rintro ⟨hno, hno'⟩
  rcases hmutex with h | h
  · exact Bool.noConfusion (h.symm.trans hno)
  · exact Bool.noConfusion (h.symm.trans hno')

/-- A notification that is due, of the two notifiers that are alike. -/
theorem notifyAgain_due (posts : Bool) (hs : s.After k)
    (htimer : armTimer s.timer .again env.timerAlloc = some ⟨.again, true⟩)
    (hmutex : s.mutex = true ∨ env.mutexAlloc = true) (hack : env.ack = false) :
    ∃ posted : List NotifyEvent, (posted = [] ∨ posted = [.post]) ∧
      notifyAgain posts s env = if k < awssNotifyCntMax then
          (⟨k + 1, 100 * (k + 1), false, some ⟨.again, true⟩, true⟩,
            posted ++ [NotifyEvent.notify] ++ [NotifyEvent.arm (100 * (k + 1))])
        else (.finish, posted ++ [NotifyEvent.notify]) := by
  obtain ⟨hcnt, hinterval, hresp⟩ := hs
  refine ⟨if posts = true ∧ s.cnt = 0 then [.post] else [], ?_, ?_⟩
  · split_ifs
    · exact .inr rfl
    · exact .inl rfl
  · have hsum : 100 * k + 100 = 100 * (k + 1) := by omega
    rw [notifyAgain, if_neg (mutex_of_or hmutex)]
    simp only [hresp, hack, htimer, hcnt, hinterval, hsum, notifyEvents, armEvents,
      Bool.false_eq_true, if_false, and_true, isSome_some, if_true]

variable {n : Notifier}

theorem again_due (hs : s.After k)
    (htimer : armTimer s.timer n.callback env.timerAlloc = some ⟨.again, true⟩)
    (hmutex : s.mutex = true ∨ env.mutexAlloc = true) (hquiet : env.Quiet n)
    (hdue : n.due env = true) :
    ∃ posted : List NotifyEvent, (posted = [] ∨ posted = [.post]) ∧
      n.again s env = if k < n.limit then
          (⟨k + 1, 100 * (k + 1), false, some ⟨.again, true⟩, true⟩,
            posted ++ [NotifyEvent.notify] ++ [NotifyEvent.arm (100 * (k + 1))])
        else (.finish, posted ++ [NotifyEvent.notify]) := by
  obtain ⟨hack, htimeout⟩ := hquiet
  cases n with
  | suc => exact notifyAgain_due true hs htimer hmutex hack
  | devinfo => exact notifyAgain_due false hs htimer hmutex hack
  | devBind =>
    obtain ⟨hcnt, hinterval, hresp⟩ := hs
    have hsuc : ¬ env.tokenSuc = false := by simpa [Notifier.due] using hdue
    have htimeout' := htimeout rfl
    have htimer' : armTimer s.timer .start env.timerAlloc = some ⟨.again, true⟩ := htimer
    refine ⟨if s.cnt = 0 then [.post] else [], ?_, ?_⟩
    · split_ifs
      · exact .inr rfl
      · exact .inl rfl
    · have hsum : 100 * k + 100 = 100 * (k + 1) := by omega
      have hlimit : k + 1 < awssNotifyCntMax ↔ k < Notifier.devBind.limit := by
        show k + 1 < 30 ↔ k < 30 - 1
        omega
      show awssDevBindNotifyAgain s env = _
      rw [awssDevBindNotifyAgain, if_neg hsuc, if_neg (mutex_of_or hmutex)]
      simp only [hresp, hack, htimer', hcnt, hinterval, hsum, htimeout', hlimit, notifyEvents,
        armEvents, Bool.false_eq_true, if_false, and_true, isSome_some, if_true]

theorem again_not_due (hdue : n.due env = false) (s : NotifyVars) :
    n.again s env = ({ s with timer := armTimer s.timer .again env.timerAlloc },
        armEvents (armTimer s.timer .again env.timerAlloc) .wait) := by
  have hn : n = .devBind ∧ env.tokenSuc = false := by simpa [Notifier.due] using hdue
  obtain ⟨rfl, hsuc⟩ := hn
  show awssDevBindNotifyAgain s env = _
  rw [awssDevBindNotifyAgain, if_pos hsuc]

/-! ## A quiet session -/

/-- The intervals of a session with `k` of them. -/
def growing (k : ℕ) : List ℕ := (List.range k).map fun i => 100 * (i + 1)

theorem growing_succ (k : ℕ) : growing (k + 1) = growing k ++ [100 * (k + 1)] := by
  rw [growing, range_succ, map_append]
  rfl

theorem length_growing (k : ℕ) : (growing k).length = k := by
  rw [growing, length_map, length_range]

/-- A session with `k` notifications that goes on. -/
structure Going (n : Notifier) (k : ℕ) (r : NotifyRun) : Prop where
  after : r.vars.After k
  timer : r.vars.timer = some ⟨.again, true⟩
  sent : r.log.count .notify = k
  arms : r.arms = growing k
  le : k ≤ n.limit

structure Ended (r : NotifyRun) : Prop where
  cnt : r.vars.cnt = 0
  interval : r.vars.interval = 0
  timer : r.vars.timer = none
  sent : r.log.count .notify ≤ awssNotifyCntMax + 1
  arms : r.arms = growing r.arms.length

theorem Notifier.limit_le (n : Notifier) : n.limit ≤ awssNotifyCntMax := by
  cases n <;> decide

variable {r : NotifyRun}

theorem Going.bounded (h : Going n k r) : SessionBounded r := by
  refine ⟨?_, ?_, fun harmed => ?_⟩
  · have := h.le
    have := n.limit_le
    rw [h.sent]
    omega
  · show r.arms = growing r.arms.length
    rw [h.arms, length_growing]
  · rw [NotifyVars.armed, h.timer] at harmed
    exact Bool.noConfusion harmed

theorem Ended.bounded (h : Ended r) : SessionBounded r :=
  ⟨h.sent, h.arms, fun _ => ⟨h.cnt, h.interval, h.timer⟩⟩

theorem Ended.armed (h : Ended r) : r.vars.armed = false := by
  rw [NotifyVars.armed, h.timer]
  rfl

theorem NotifyRun.arms_append (vars vars' : NotifyVars) (log events : List NotifyEvent) :
    (⟨vars', log ++ events⟩ : NotifyRun).arms =
      (⟨vars, log⟩ : NotifyRun).arms ++ (⟨vars, events⟩ : NotifyRun).arms :=
  filterMap_append

/-- A call of the notifier that is due: one notification more, and after the last one the end. -/
theorem going_call (log : List NotifyEvent) (hs : s.After k)
    (htimer : armTimer s.timer n.callback env.timerAlloc = some ⟨.again, true⟩)
    (hmutex : s.mutex = true ∨ env.mutexAlloc = true) (hquiet : env.Quiet n)
    (hdue : n.due env = true) (hsent : log.count .notify = k)
    (harms : (⟨s, log⟩ : NotifyRun).arms = growing k) (hle : k ≤ n.limit) :
    (Going n (k + 1) ⟨(n.again s env).1, log ++ (n.again s env).2⟩ ∧
        (n.again s env).1.mutex = true) ∨
      Ended ⟨(n.again s env).1, log ++ (n.again s env).2⟩ := by
  obtain ⟨posted, hposted, hcall⟩ := again_due hs htimer hmutex hquiet hdue
  have hcount : posted.count .notify = 0 := by
    rcases hposted with rfl | rfl <;> rfl
  have hnone : ∀ vars, (⟨vars, posted⟩ : NotifyRun).arms = [] := by
    rcases hposted with rfl | rfl <;> exact fun _ => rfl
  have hlimit := n.limit_le
  rw [hcall]
  by_cases hk : k < n.limit
  · left
    rw [if_pos hk]
    refine ⟨⟨⟨rfl, rfl, rfl⟩, rfl, ?_, ?_, hk⟩, rfl⟩
    · simp only [count_append, hsent, hcount]
      rfl
    · rw [NotifyRun.arms_append s, harms, NotifyRun.arms_append s, NotifyRun.arms_append s, hnone,
        growing_succ]
      rfl
  · right
    rw [if_neg hk]
    have harms' : (⟨.finish, log ++ (posted ++ [.notify])⟩ : NotifyRun).arms = growing k := by
      rw [NotifyRun.arms_append s, harms, NotifyRun.arms_append s, hnone]
      exact append_nil _
    refine ⟨rfl, rfl, rfl, ?_, ?_⟩
    · simp only [count_append, hsent, hcount]
      show k + (0 + 1) ≤ _
      omega
    · rw [harms', length_growing]

theorem waiting_call (log : List NotifyEvent) (hs : s.After k) (hdue : n.due env = false)
    (htimer : armTimer s.timer .again env.timerAlloc = some ⟨.again, true⟩)
    (hsent : log.count .notify = k) (harms : (⟨s, log⟩ : NotifyRun).arms = growing k)
    (hle : k ≤ n.limit) :
    Going n k ⟨(n.again s env).1, log ++ (n.again s env).2⟩ ∧
      (n.again s env).1.mutex = s.mutex := by
  rw [again_not_due hdue]
  refine ⟨⟨⟨hs.cnt, hs.interval, hs.resp⟩, htimer, ?_, ?_, hle⟩, rfl⟩
  · rw [htimer, count_append, hsent]
    rfl
  · rw [htimer, NotifyRun.arms_append s, harms]
    exact append_nil _

theorem tick_of_armed (n : Notifier) (h : s.timer = some ⟨.again, true⟩) (env : NotifyEnv) :
    n.tick s env = n.again { s with timer := some ⟨.again, false⟩ } env := by
  unfold Notifier.tick
  rw [h]

theorem tick_of_none (n : Notifier) (h : s.timer = none) (env : NotifyEnv) :
    n.tick s env = (s, []) := by
  unfold Notifier.tick
  rw [h]

theorem Ended.tick (h : Ended r) (n : Notifier) (env : NotifyEnv) : n.step r (.tick env) = r := by
  show (⟨(n.tick r.vars env).1, r.log ++ (n.tick r.vars env).2⟩ : NotifyRun) = r
  rw [tick_of_none n h.timer, append_nil]

theorem Ended.ticks (h : Ended r) (n : Notifier) (ticks : List NotifyEnv) :
    (ticks.map NotifyOp.tick).foldl n.step r = r := by
  induction ticks with
  | nil => rfl
  | cons e ticks ih =>
    rw [map_cons, foldl_cons, h.tick]
    exact ih

theorem Going.tick (h : Going n k r) (hmutex : r.vars.mutex = true ∨ env.mutexAlloc = true)
    (hquiet : env.Quiet n) :
    (Going n (k + if n.due env = true then 1 else 0) (n.step r (.tick env)) ∧
        (r.vars.mutex = true → (n.step r (.tick env)).vars.mutex = true)) ∨
      Ended (n.step r (.tick env)) := by
  have hafter : ({ r.vars with timer := some ⟨.again, false⟩ } : NotifyVars).After k :=
    ⟨h.after.cnt, h.after.interval, h.after.resp⟩
  have hstep : n.step r (.tick env) =
      ⟨(n.again { r.vars with timer := some ⟨.again, false⟩ } env).1,
        r.log ++ (n.again { r.vars with timer := some ⟨.again, false⟩ } env).2⟩ := by
    show (⟨(n.tick r.vars env).1, r.log ++ (n.tick r.vars env).2⟩ : NotifyRun) = _
    rw [tick_of_armed n h.timer]
  rw [hstep]
  by_cases hdue : n.due env = true
  · rw [if_pos hdue]
    rcases going_call r.log hafter rfl hmutex hquiet hdue h.sent h.arms h.le with
      ⟨hgoing, hmutex'⟩ | hend
    · exact .inl ⟨hgoing, fun _ => hmutex'⟩
    · exact .inr hend
  · rw [if_neg hdue]
    obtain ⟨hgoing, hmutex'⟩ := waiting_call r.log hafter (Bool.eq_false_iff.mpr hdue) rfl h.sent
      h.arms h.le
    exact .inl ⟨hgoing, fun hm => hmutex'.trans hm⟩

/-- **Ticks.**  Quiet ticks go on with a session until it has ended. -/
theorem Going.ticks {ticks : List NotifyEnv} (hquiet : ∀ e ∈ ticks, e.Quiet n) (h : Going n k r)
    (hmutex : r.vars.mutex = true ∨ ∀ e ∈ ticks, e.mutexAlloc = true) :
    Going n (k + (ticks.filter n.due).length) ((ticks.map NotifyOp.tick).foldl n.step r) ∨
      Ended ((ticks.map NotifyOp.tick).foldl n.step r) := by
  induction ticks generalizing k r with
  | nil => exact .inl h
  | cons e ticks ih =>
    obtain ⟨hfirst, hrest⟩ := forall_mem_cons.mp hquiet
    rw [map_cons, foldl_cons]
    have hmutex' := hmutex.imp_right fun hall => hall e mem_cons_self
    rcases h.tick hmutex' hfirst with ⟨hgoing, hkept⟩ | hend
    · have hcount : k + ((e :: ticks).filter n.due).length =
          (k + if n.due e = true then 1 else 0) + (ticks.filter n.due).length := by
        rw [filter_cons]
        split_ifs
        · rw [length_cons]
          omega
        · rfl
      rw [hcount]
      exact ih hrest hgoing (hmutex.imp hkept fun hall e' he' =>
        hall e' (mem_cons_of_mem e he'))
    · right
      rw [hend.ticks]
      exact hend

theorem going_start (hcarried : Carried n s env) (hmutex : s.mutex = true ∨ env.mutexAlloc = true)
    (hquiet : env.Quiet n) :
    (Going n (if n.due env = true then 1 else 0) ⟨(n.start s env).1, (n.start s env).2⟩ ∧
        (s.mutex = true → (n.start s env).1.mutex = true)) ∨
      Ended ⟨(n.start s env).1, (n.start s env).2⟩ := by
  set s₀ : NotifyVars := { s with cnt := 0, interval := 0, resp := false } with hs₀
  have hafter : s₀.After 0 := ⟨rfl, rfl, rfl⟩
  have hcall : n.start s env = n.again s₀ env := rfl
  rw [hcall]
  by_cases hdue : n.due env = true
  · have htimer : armTimer s₀.timer n.callback env.timerAlloc = some ⟨.again, true⟩ := by
      unfold Carried at hcarried
      cases htimer : s.timer with
      | some t =>
        rw [htimer] at hcarried
        show some (⟨t.callback, true⟩ : NotifyTimer) = _
        rw [show t.callback = .again from hcarried]
      | none =>
        rw [htimer] at hcarried
        have halloc : (if n = .devBind then env.tokenSuc = false else env.timerAlloc = true) :=
          hcarried
        cases n with
        | devBind =>
          have hsuc : env.tokenSuc = false := halloc
          rw [Notifier.due, hsuc] at hdue
          exact absurd hdue (by decide)
        | suc =>
          have : env.timerAlloc = true := halloc
          rw [this]
          rfl
        | devinfo =>
          have : env.timerAlloc = true := halloc
          rw [this]
          rfl
    rw [if_pos hdue]
    rcases going_call [] hafter htimer hmutex hquiet hdue rfl rfl (Nat.zero_le _) with
      ⟨hgoing, hmutex'⟩ | hend
    · exact .inl ⟨hgoing, fun _ => hmutex'⟩
    · exact .inr hend
  · have hdue' := Bool.eq_false_iff.mpr hdue
    rw [if_neg hdue]
    cases htimer : armTimer s₀.timer .again env.timerAlloc with
    | some t =>
      have hagain : t = ⟨.again, true⟩ := by
        unfold Carried at hcarried
        cases hold : s.timer with
        | some t' =>
          rw [hold] at hcarried htimer
          have hcallback : t'.callback = .again := hcarried
          rw [← Option.some.inj htimer, ← hcallback]
        | none =>
          rw [hold] at htimer
          unfold armTimer at htimer
          split_ifs at htimer
          exact (Option.some.inj htimer).symm
      obtain ⟨hgoing, hmutex'⟩ := waiting_call [] hafter hdue'
        (htimer.trans (congrArg some hagain)) rfl rfl (Nat.zero_le _)
      exact .inl ⟨hgoing, fun hm => hmutex'.trans hm⟩
    | none =>
      right
      rw [again_not_due hdue', htimer]
      exact ⟨rfl, rfl, rfl, Nat.zero_le _, rfl⟩

/-! ## Silence -/

/-- A timer calls the notifier. -/
def OwnTimer (timer : Option NotifyTimer) : Prop := ∀ t, timer = some t → t.callback = .again

theorem ownTimer_none : OwnTimer none := fun _ h => absurd h.symm (some_ne_none _)

theorem OwnTimer.arm (h : OwnTimer timer) (alloc : Bool) :
    OwnTimer (armTimer timer .again alloc) := by
  intro t ht
  cases timer with
  | some t' =>
    obtain rfl := Option.some.inj ht
    exact h t' rfl
  | none =>
    unfold armTimer at ht
    split_ifs at ht
    obtain rfl := Option.some.inj ht
    rfl

theorem OwnTimer.rearm (h : OwnTimer timer) (hsome : timer.isSome = true)
    (callback : NotifyCallback) (alloc : Bool) : OwnTimer (armTimer timer callback alloc) := by
  rw [armTimer_again h hsome]
  exact fun t ht => (Option.some.inj ht) ▸ rfl

/-- What a call leaves: a timer that calls the notifier, no notification behind a response, and
after a response nothing that would send one. -/
structure CallQuiet (s : NotifyVars) (r : NotifyVars × List NotifyEvent) : Prop where
  own : OwnTimer r.1.timer
  silenced : Silenced r.2
  hushed : s.resp = true → .notify ∉ r.2 ∧ (r.1.timer = none ∨ r.1.resp = true)
  quietened : .ack ∈ r.2 ∨ .stop ∈ r.2 → r.1.timer = none ∨ r.1.resp = true

theorem callQuiet_same (h : OwnTimer s.timer) : CallQuiet s (s, []) :=
  ⟨h, List.Pairwise.nil, fun hresp => ⟨not_mem_nil, .inr hresp⟩, fun hmem =>
    hmem.elim (absurd · not_mem_nil) (absurd · not_mem_nil)⟩

/-- The end of a notifier, after events without a notification behind a response. -/
theorem callQuiet_finish (s : NotifyVars) {events : List NotifyEvent} (h : Silenced events)
    (hushed : s.resp = true → .notify ∉ events) : CallQuiet s (.finish, events) :=
  ⟨ownTimer_none, h, fun hresp => ⟨hushed hresp, .inl rfl⟩, fun _ => .inl rfl⟩

/-- A call that starts the timer, after events without a response. -/
theorem callQuiet_arm {s' : NotifyVars} {events : List NotifyEvent} (hown : OwnTimer s'.timer)
    (hevents : ∀ e ∈ events, e ≠ .ack ∧ e ≠ .stop)
    (hushed : s.resp = true → .notify ∉ events ∧ s'.resp = true) : CallQuiet s (s', events) := by
  refine ⟨hown, ?_, fun hresp => ⟨(hushed hresp).1, .inr (hushed hresp).2⟩, fun hmem => ?_⟩
  · apply pairwise_of_forall_mem_list
    intro a ha b _ hab
    rcases hab with h | h
    · exact absurd h (hevents a ha).1
    · exact absurd h (hevents a ha).2
  · rcases hmem with h | h
    · exact absurd rfl (hevents _ h).1
    · exact absurd rfl (hevents _ h).2

theorem silenced_sent (env : NotifyEnv) {posted : List NotifyEvent}
    (h : posted = [] ∨ posted = [.post]) : Silenced (posted ++ notifyEvents env) := by
  unfold notifyEvents Silenced
  rcases h with rfl | rfl <;> cases env.ack <;> decide

theorem ne_ack_of_arm {posted : List NotifyEvent} (h : posted = [] ∨ posted = [.post])
    (timer : Option NotifyTimer) (ms : ℕ) {sent : List NotifyEvent}
    (hsent : sent = [] ∨ sent = [.notify]) :
    ∀ e ∈ posted ++ sent ++ armEvents timer (.arm ms), e ≠ .ack ∧ e ≠ .stop := by
  unfold armEvents
  rcases h with rfl | rfl <;> rcases hsent with rfl | rfl <;> cases timer <;> simp

theorem notifyAgain_quiet (posts : Bool) (h : OwnTimer s.timer) (env : NotifyEnv) :
    CallQuiet s (notifyAgain posts s env) := by
  unfold notifyAgain
  set posted : List NotifyEvent := if posts = true ∧ s.cnt = 0 then [.post] else [] with hdef
  have hposted : posted = [] ∨ posted = [.post] := by
    rw [hdef]
    split_ifs
    · exact .inr rfl
    · exact .inl rfl
  split_ifs with hmutex hresp hmore
  · exact callQuiet_same h
  · refine callQuiet_finish s ?_ fun _ => ?_
    · rcases hposted with hp | hp <;> rw [hp] <;> unfold Silenced <;> decide
    · rcases hposted with hp | hp <;> rw [hp] <;> decide
  · refine callQuiet_arm (h.arm env.timerAlloc) ?_ fun hyes => absurd hyes hresp
    have hsent : notifyEvents env = [.notify] := by
      rw [notifyEvents, hmore.2]
      rfl
    rw [hsent]
    exact ne_ack_of_arm hposted _ _ (.inr rfl)
  · exact callQuiet_finish s (silenced_sent env hposted) fun hyes => absurd hyes hresp

theorem awssDevBindNotifyAgain_quiet (h : OwnTimer s.timer)
    (hnone : s.timer = none → env.tokenSuc = false) :
    CallQuiet s (awssDevBindNotifyAgain s env) := by
  unfold awssDevBindNotifyAgain
  set posted : List NotifyEvent := if s.cnt = 0 then [.post] else [] with hdef
  have hposted : posted = [] ∨ posted = [.post] := by
    rw [hdef]
    split_ifs
    · exact .inr rfl
    · exact .inl rfl
  by_cases hsuc : env.tokenSuc = false
  · rw [if_pos hsuc]
    refine callQuiet_arm (h.arm env.timerAlloc) ?_ fun hresp => ⟨?_, hresp⟩
    · unfold armEvents
      cases armTimer s.timer .again env.timerAlloc <;> simp
    · unfold armEvents
      cases armTimer s.timer .again env.timerAlloc <;> simp
  have hsome : s.timer.isSome = true := by
    rw [isSome_iff_ne_none]
    exact fun hno => hsuc (hnone hno)
  rw [if_neg hsuc]
  by_cases hmutex : s.mutex = false ∧ env.mutexAlloc = false
  · rw [if_pos hmutex]
    exact callQuiet_same h
  rw [if_neg hmutex]
  by_cases hresp : s.resp = true
  · rw [if_pos hresp]
    refine callQuiet_finish s ?_ fun _ => ?_
    · rcases hposted with hp | hp <;> rw [hp] <;> unfold Silenced <;> decide
    · rcases hposted with hp | hp <;> rw [hp] <;> decide
  rw [if_neg hresp]
  by_cases hmore : (if env.tokenTimeout = false then s.cnt + 1 else s.cnt) <
      awssNotifyCntMax ∧ env.ack = false
  · rw [if_pos hmore]
    refine callQuiet_arm (h.rearm hsome .start env.timerAlloc) ?_ fun hyes =>
      absurd hyes hresp
    apply ne_ack_of_arm hposted
    by_cases htimeout : env.tokenTimeout = false
    · rw [if_pos htimeout, notifyEvents, hmore.2]
      exact .inr rfl
    · rw [if_neg htimeout, hmore.2]
      exact .inl rfl
  · rw [if_neg hmore]
    refine callQuiet_finish s ?_ fun hyes => absurd hyes hresp
    split_ifs
    · exact silenced_sent env hposted
    · rcases hposted with hp | hp <;> rw [hp] <;> unfold Silenced <;> decide
    · rcases hposted with hp | hp <;> rw [hp] <;> unfold Silenced <;> decide

theorem again_quiet (h : OwnTimer s.timer)
    (hnone : n = .devBind → s.timer = none → env.tokenSuc = false) :
    CallQuiet s (n.again s env) := by
  cases n with
  | suc => exact notifyAgain_quiet true h env
  | devinfo => exact notifyAgain_quiet false h env
  | devBind => exact awssDevBindNotifyAgain_quiet h (hnone rfl)

/-- A session in which no notification has gone out, or will go out, after a response or a
stop. -/
structure Hushed (r : NotifyRun) : Prop where
  own : OwnTimer r.vars.timer
  silenced : Silenced r.log
  quietened : .ack ∈ r.log ∨ .stop ∈ r.log → r.vars.timer = none ∨ r.vars.resp = true

theorem Hushed.call (h : Hushed r) (hsome : r.vars.timer ≠ none) {c : NotifyVars × List NotifyEvent}
    (hcall : CallQuiet { r.vars with timer := timer } c) : Hushed ⟨c.1, r.log ++ c.2⟩ := by
  refine ⟨hcall.own, ?_, fun hmem => ?_⟩
  · refine pairwise_append.mpr ⟨h.silenced, hcall.silenced, fun a ha b hb hab => ?_⟩
    have hresp : r.vars.resp = true := (h.quietened (by
      rcases hab with rfl | rfl
      · exact .inl ha
      · exact .inr ha)).resolve_left hsome
    rintro rfl
    exact (hcall.hushed hresp).1 hb
  · by_cases hbefore : .ack ∈ r.log ∨ .stop ∈ r.log
    · exact (hcall.hushed ((h.quietened hbefore).resolve_left hsome)).2
    · apply hcall.quietened
      simp only [mem_append] at hmem
      tauto

theorem Hushed.step (h : Hushed r) (n : Notifier) (op : NotifyOp) : Hushed (n.step r op) := by
  cases op with
  | tick env =>
    show Hushed ⟨(n.tick r.vars env).1, r.log ++ (n.tick r.vars env).2⟩
    rcases htimer : r.vars.timer with _ | ⟨callback, armed⟩
    · rw [tick_of_none n htimer, append_nil]
      exact h
    have hcallback : callback = .again := h.own _ htimer
    subst hcallback
    cases armed with
    | true =>
      rw [tick_of_armed n htimer]
      refine h.call (by rw [htimer]; exact some_ne_none _)
        (again_quiet (fun t ht => ?_) fun _ hno => absurd hno (some_ne_none _))
      exact (Option.some.inj ht) ▸ rfl
    | false =>
      have hidle : n.tick r.vars env = (r.vars, []) := by
        unfold Notifier.tick
        rw [htimer]
      rw [hidle, append_nil]
      exact h
  | ack =>
    refine ⟨h.own, pairwise_append.mpr ⟨h.silenced, pairwise_singleton _ _, ?_⟩,
      fun _ => .inr rfl⟩
    intro a _ b hb _ hnotify
    rw [mem_singleton.mp hb] at hnotify
    exact NotifyEvent.noConfusion hnotify
  | stop =>
    refine ⟨ownTimer_none, pairwise_append.mpr ⟨h.silenced, pairwise_singleton _ _, ?_⟩,
      fun _ => .inl rfl⟩
    intro a _ b hb _ hnotify
    rw [mem_singleton.mp hb] at hnotify
    exact NotifyEvent.noConfusion hnotify

theorem hushed_session (h : OwnTimer s.timer)
    (hnone : n = .devBind → s.timer = none → env.tokenSuc = false) (ops : List NotifyOp) :
    Hushed (n.session s env ops) := by
  set s₀ : NotifyVars := { s with cnt := 0, interval := 0, resp := false } with hs₀
  have hown : OwnTimer s₀.timer := h
  have hnone₀ : n = .devBind → s₀.timer = none → env.tokenSuc = false := hnone
  have hstart : CallQuiet s₀ (n.start s env) := again_quiet hown hnone₀
  exact inv_foldl Hushed (fun r op hr => hr.step n op)
    ⟨hstart.own, hstart.silenced, hstart.quietened⟩ ops

theorem ownTimer_sessions (hn : n ≠ .devBind) (before : List (NotifyEnv × List NotifyOp)) :
    OwnTimer (n.sessions before).timer :=
  inv_foldl (fun s : NotifyVars => OwnTimer s.timer)
    (fun _ p hs => (hushed_session hs (fun h => absurd h hn) p.2).own) ownTimer_none before

theorem Carried.own (h : Carried n s env) :
    OwnTimer s.timer ∧ (n = .devBind → s.timer = none → env.tokenSuc = false) := by
  unfold Carried at h
  cases htimer : s.timer with
  | some t =>
    rw [htimer] at h
    exact ⟨fun t' ht' => Option.some.inj ht' ▸ h, fun _ hno => absurd hno (some_ne_none _)⟩
  | none =>
    rw [htimer] at h
    exact ⟨ownTimer_none, fun hn _ => (if_pos hn).mp h⟩

/-- **Sessions.**  A session that is carried by a timer which calls the notifier sends its
notifications at growing intervals and ends, as long as it is quiet and there is memory for the
mutex; and once a response has come or the session was stopped, it is silent. -/
theorem notify_session_bounded (n : Notifier) (before : List (NotifyEnv × List NotifyOp))
    (env : NotifyEnv) (hcarried : n = .devBind → Carried n (n.sessions before) env) :
    (∀ ops, Silenced (n.session (n.sessions before) env ops).log) ∧
      (Carried n (n.sessions before) env → ∀ ticks : List NotifyEnv,
        (n.sessions before).mutex = true ∨ (∀ e ∈ env :: ticks, e.mutexAlloc = true) →
          (∀ e ∈ env :: ticks, e.Quiet n) →
            SessionBounded (n.session (n.sessions before) env (ticks.map .tick)) ∧
              (awssNotifyCntMax < ((env :: ticks).filter n.due).length →
                (n.session (n.sessions before) env (ticks.map .tick)).vars.armed = false)) := by
  set s := n.sessions before with hs
  constructor
  · intro ops
    by_cases hn : n = .devBind
    · obtain ⟨hown, hnone⟩ := (hcarried hn).own
      exact (hushed_session hown hnone ops).silenced
    · exact (hushed_session (ownTimer_sessions hn before) (fun h => absurd h hn) ops).silenced
  · intro hcarried ticks hmutex hquiet
    obtain ⟨hfirst, hrest⟩ := forall_mem_cons.mp hquiet
    have hcount : ((env :: ticks).filter n.due).length =
        (if n.due env = true then 1 else 0) + (ticks.filter n.due).length := by
      rw [filter_cons]
      split_ifs
      · rw [length_cons, Nat.add_comm]
      · rw [Nat.zero_add]
    rcases going_start hcarried (hmutex.imp_right fun hall => hall env mem_cons_self) hfirst
      with ⟨hgoing, hkept⟩ | hend
    · rcases hgoing.ticks hrest (hmutex.imp hkept fun hall e he =>
        hall e (mem_cons_of_mem env he)) with hgoing' | hend
      · refine ⟨hgoing'.bounded, fun hmany => ?_⟩
        have := hgoing'.le
        have := n.limit_le
        omega
      · exact ⟨hend.bounded, fun _ => hend.armed⟩
    · have hsame : n.session s env (ticks.map .tick) = ⟨(n.start s env).1, (n.start s env).2⟩ :=
        hend.ticks n ticks
      rw [hsame]
      exact ⟨hend.bounded, fun _ => hend.armed⟩

/-- There is memory, the token has been reported and is not out of date, and no response comes. -/
def calmEnv : NotifyEnv := ⟨true, true, true, false, false⟩

/-- The first session of `awss_suc_notify` sends 31 notifications and ends. -/
theorem notify_session_bounded_suc :
    SessionBounded (Notifier.suc.session (Notifier.suc.sessions []) calmEnv
      ((List.replicate 31 calmEnv).map .tick)) ∧
    (Notifier.suc.session (Notifier.suc.sessions []) calmEnv
      ((List.replicate 31 calmEnv).map .tick)).vars.armed = false := by
  have hcarried : Carried .suc (Notifier.suc.sessions []) calmEnv := rfl
  have hsession := (notify_session_bounded .suc [] calmEnv (fun h => Notifier.noConfusion h)).2
    hcarried (List.replicate 31 calmEnv) (.inr (by decide))
    (fun e he => by
      have hcalm : e = calmEnv := by
        rcases mem_cons.mp he with h | h
        · exact h
        · exact eq_of_mem_replicate h
      rw [hcalm]
      exact ⟨rfl, fun _ => rfl⟩)
  exact ⟨hsession.1, hsession.2 (by decide)⟩

/-- `awss_dev_bind_notify`, called when the token has been reported, sends a 32nd
notification. -/
theorem notify_session_broken :
    ¬ ∀ (n : Notifier) (before : List (NotifyEnv × List NotifyOp)) (env : NotifyEnv)
      (ticks : List NotifyEnv), (∀ e ∈ env :: ticks, e = calmEnv) →
        SessionBounded (n.session (n.sessions before) env (ticks.map .tick)) := by
  intro hclaim
  have hbounded := hclaim .devBind [] calmEnv (List.replicate 31 calmEnv) (fun e he => by
    rcases mem_cons.mp he with h | h
    · exact h
    · exact eq_of_mem_replicate h)
  exact absurd hbounded.sent (by decide)

end Iotkit.DevBind
