/-
# The mailbox of a connection (`at_conn_mbox.c`)

A ring that uses all of its slots: when it fills, the tail stays where it is, and the next read
moves it on.  The ring refines a queue, whose messages stand in it from the head on.
-/
import Iotkit.RingBuffer

namespace Iotkit.AtMbox

open RingBuffer Function

variable {α : Type*}

/-! ## The code -/

/-- `at_ringbuf_t`; the slots hold pointers to messages. -/
structure AtRingbuf (α : Type*) where
  buffer : ℕ → α
  length : ℕ
  head : ℕ
  tail : ℕ
  full : Bool

def atRingbufAvailableReadSpace (r : AtRingbuf α) : ℕ :=
  if r.full then r.length
  else if r.head = r.tail then 0
  else if r.head < r.tail then r.tail - r.head
  else r.length - (r.head - r.tail)

def atRingbufEmpty (r : AtRingbuf α) : Bool := atRingbufAvailableReadSpace r = 0

/-- `at_ringbuf_create` with a buffer, when there is memory or not. -/
def atRingbufCreate (memory : Bool) (length : ℤ) (buf : Option (ℕ → α)) : Option (AtRingbuf α) :=
  match buf with
  | none => none
  | some buffer =>
    if length < 2 then none
    else if memory then some ⟨buffer, length.toNat, 0, 0, false⟩
    else none

/-- `at_ringbuf_write` of a pointer. -/
def atRingbufWrite (r : AtRingbuf α) (data : α) : ℤ × AtRingbuf α :=
  if r.full then (-1, r)
  else
    let buffer := update r.buffer r.tail data
    let next := (r.tail + 1) % r.length
    (0, if next = r.head then { r with buffer, full := true } else { r with buffer, tail := next })

/-- `at_ringbuf_read`, with the pointer that is read.  The slot is set to `NULL`. -/
def atRingbufRead (null : α) (r : AtRingbuf α) : (ℤ × Option α) × AtRingbuf α :=
  if atRingbufEmpty r then ((-1, none), r)
  else
    let buffer := update r.buffer r.head null
    let head := (r.head + 1) % r.length
    ((0, some (r.buffer r.head)),
      if r.full then { r with buffer, head, full := false, tail := (r.tail + 1) % r.length }
      else { r with buffer, head })

def atMboxEmpty : ℤ := 2 ^ 32 - 1

/-- A call, for a message or for the place of one. -/
inductive MboxCall (α : Type*) where
  | atMboxTrypost (msg : α)
  | atMboxTryfetch

/-- What a call returns, and the message that it fetches. -/
abbrev Answer (α : Type*) := ℤ × Option α

/-- `at_mbox_trypost` and `at_mbox_tryfetch`. -/
def mboxStep (null : α) (r : AtRingbuf α) : MboxCall α → Answer α × AtRingbuf α
  | .atMboxTrypost msg =>
    let written := atRingbufWrite r msg
    ((if written.1 ≠ 0 then -1 else 0, none), written.2)
  | .atMboxTryfetch =>
    let read := atRingbufRead null r
    ((if read.1.1 ≠ 0 then atMboxEmpty else 0, read.1.2), read.2)

/-! ## Queues -/

/-- The calls on a queue for `n` messages. -/
def queueStep (n : ℕ) : List α → MboxCall α → Answer α × List α
  | xs, .atMboxTrypost msg =>
    if xs.length = n then ((-1, none), xs) else ((0, none), xs ++ [msg])
  | [], .atMboxTryfetch => ((atMboxEmpty, none), [])
  | x :: xs, .atMboxTryfetch => ((0, some x), xs)

/-- The calls with their answers, and what is left behind. -/
def run {S : Type*} (step : S → MboxCall α → Answer α × S) :
    S → List (MboxCall α) → List (MboxCall α × Answer α) × S
  | s, [] => ([], s)
  | s, c :: calls =>
    let rest := run step (step s c).2 calls
    ((c, (step s c).1) :: rest.1, rest.2)

/-- The message that a call has put into the mailbox. -/
def accepted : MboxCall α × Answer α → Option α
  | (.atMboxTrypost msg, ret, _) => if ret = 0 then some msg else none
  | (.atMboxTryfetch, _) => none

/-- The message that a call has taken out. -/
def fetched (c : MboxCall α × Answer α) : Option α := c.2.2

/-- What comes out of a queue, and what waits in it, is what it held, and what it accepted. -/
theorem queue_fifo (n : ℕ) (xs : List α) (calls : List (MboxCall α)) :
    xs ++ (run (queueStep n) xs calls).1.filterMap accepted =
      (run (queueStep n) xs calls).1.filterMap fetched ++ (run (queueStep n) xs calls).2 := by
  induction calls generalizing xs with
  | nil => simp [run]
  | cons c calls ih =>
    rw [run]
    cases c with
    | atMboxTrypost msg =>
      rw [queueStep]
      split_ifs with hfull
      · simpa [List.filterMap_cons, accepted, fetched] using ih xs
      · simpa [List.filterMap_cons, accepted, fetched] using ih (xs ++ [msg])
    | atMboxTryfetch =>
      cases xs with
      | nil => simpa [List.filterMap_cons, queueStep, accepted, fetched] using ih []
      | cons x xs => simpa [List.filterMap_cons, queueStep, accepted, fetched] using ih xs

/-- Two machines whose steps keep a relation, with the same answers, have the same runs. -/
theorem run_simulates {S T : Type*} {R : S → T → Prop} {step : S → MboxCall α → Answer α × S}
    {step' : T → MboxCall α → Answer α × T}
    (hstep : ∀ s t c, R s t → (step s c).1 = (step' t c).1 ∧ R (step s c).2 (step' t c).2)
    (calls : List (MboxCall α)) {s : S} {t : T} (h : R s t) :
    (run step s calls).1 = (run step' t calls).1 ∧
      R (run step s calls).2 (run step' t calls).2 := by
  induction calls generalizing s t with
  | nil => exact ⟨rfl, h⟩
  | cons c calls ih =>
    obtain ⟨hanswer, hrel⟩ := hstep s t c h
    obtain ⟨hlog, hend⟩ := ih hrel
    exact ⟨by rw [run, run, hanswer, hlog], hend⟩

/-! ## The refinement -/

/-- The ring holds the messages of a queue.  The tail is the place of the next message, or of the
last one when the ring is full. -/
structure Holds (n : ℕ) (r : AtRingbuf α) (xs : List α) : Prop where
  two_le : 2 ≤ n
  length_eq : r.length = n
  ring : RingHolds (fun i x => r.buffer i = x) (fun _ => True) n r.head xs
  full_iff : r.full = true ↔ xs.length = n
  tail_eq : r.tail = (r.head + if r.full then n - 1 else xs.length) % n

namespace Holds

variable {n : ℕ} {r : AtRingbuf α} {xs : List α}

section

variable (h : Holds n r xs)
include h

theorem tail_lt : r.tail < n := by
  have htwo := h.two_le
  rw [h.tail_eq]
  exact Nat.mod_lt _ (by omega)

theorem space : atRingbufAvailableReadSpace r = xs.length := by
  have hhead := h.ring.start_lt
  have hle := h.ring.length_le
  have htail := h.tail_eq
  rw [atRingbufAvailableReadSpace, h.length_eq]
  by_cases hfull : r.full
  · rw [if_pos hfull, h.full_iff.mp hfull]
  have hlt : xs.length < n := lt_of_le_of_ne hle (mt h.full_iff.mpr hfull)
  rw [if_neg hfull] at htail ⊢
  by_cases hwrap : r.head + xs.length < n
  · rw [Nat.mod_eq_of_lt hwrap] at htail
    split_ifs <;> omega
  · rw [Nat.mod_eq_sub_mod (by omega), Nat.mod_eq_of_lt (by omega)] at htail
    split_ifs <;> omega

theorem empty_iff : atRingbufEmpty r = true ↔ xs = [] := by
  rw [atRingbufEmpty, decide_eq_true_iff, h.space, List.length_eq_zero_iff]

theorem write_full (msg : α) (hlen : xs.length = n) :
    atRingbufWrite r msg = (-1, r) := if_pos (h.full_iff.mpr hlen)

theorem write (msg : α) (hlen : xs.length ≠ n) :
    (atRingbufWrite r msg).1 = 0 ∧ Holds n (atRingbufWrite r msg).2 (xs ++ [msg]) := by
  have hfull : ¬ r.full := mt h.full_iff.mp hlen
  have hhead := h.ring.start_lt
  have hlt : xs.length < n := lt_of_le_of_ne h.ring.length_le hlen
  have htail : r.tail = (r.head + xs.length) % n := by
    rw [h.tail_eq, if_neg hfull]
  have hnext : (r.tail + 1) % n = (r.head + (xs.length + 1)) % n := by
    rw [htail, Nat.mod_add_mod, Nat.add_assoc]
  have hring : RingHolds (fun i x => update r.buffer r.tail msg i = x) (fun _ => True) n
      r.head (xs ++ [msg]) := by
    apply h.ring.push hlt
    · intro j hj
      rw [← htail] at hj
      exact ⟨fun x hx => (update_of_ne hj ..).trans hx, id⟩
    · rw [← htail]
      exact update_self ..
  rw [atRingbufWrite, if_neg hfull, h.length_eq, hnext]
  refine ⟨rfl, ?_⟩
  dsimp only
  by_cases hlast : xs.length + 1 = n
  · -- the last slot is taken, and the tail stays there
    have heq : (r.head + (xs.length + 1)) % n = r.head := by
      rw [hlast, Nat.add_mod_right, Nat.mod_eq_of_lt hhead]
    rw [if_pos heq]
    refine ⟨h.two_le, rfl, hring, by simpa using hlast, ?_⟩
    rw [if_pos rfl, ← hlast, Nat.add_sub_cancel, hlast]
    exact htail
  have hne : (r.head + (xs.length + 1)) % n ≠ r.head := by
    intro heq
    have := place_inj (by omega) (by omega) (heq.trans (RingHolds.place_zero hhead).symm)
    omega
  rw [if_neg hne]
  refine ⟨h.two_le, rfl, hring, ?_, ?_⟩
  · simpa [hfull] using hlast
  · simp [hfull]

end

theorem read_empty (h : Holds n r []) (null : α) : atRingbufRead null r = ((-1, none), r) :=
  if_pos (h.empty_iff.mpr rfl)

theorem read {x : α} (h : Holds n r (x :: xs)) (null : α) :
    (atRingbufRead null r).1 = (0, some x) ∧ Holds n (atRingbufRead null r).2 xs := by
  have hhead := h.ring.start_lt
  have hle : xs.length + 1 ≤ n := h.ring.length_le
  have hfirst : r.buffer r.head = x := by
    have := h.ring.holds_at 0 (Nat.zero_lt_succ _)
    rwa [RingHolds.place_zero hhead] at this
  have hring : RingHolds (fun i x => update r.buffer r.head null i = x) (fun _ => True) n
      ((r.head + 1) % n) xs :=
    h.ring.pop (fun j hj => ⟨fun x hx => (update_of_ne hj ..).trans hx, id⟩) trivial
  have hempty : ¬ atRingbufEmpty r := mt h.empty_iff.mp (List.cons_ne_nil x xs)
  have htail := h.tail_eq
  have hne : xs.length ≠ n := by omega
  rw [atRingbufRead, if_neg hempty, h.length_eq, hfirst]
  refine ⟨rfl, ?_⟩
  dsimp only
  by_cases hfull : r.full
  · -- the tail stood on the last message
    have hlen : xs.length + 1 = n := h.full_iff.mp hfull
    rw [if_pos hfull]
    refine ⟨h.two_le, rfl, hring, by simpa using hne, ?_⟩
    rw [if_pos hfull] at htail
    dsimp only
    rw [if_neg Bool.false_ne_true, htail, Nat.mod_add_mod, Nat.mod_add_mod]
    congr 1
    omega
  · rw [if_neg hfull]
    rw [if_neg hfull] at htail
    refine ⟨h.two_le, rfl, hring, by simpa [hfull] using hne, ?_⟩
    dsimp only
    rw [if_neg hfull, htail, Nat.mod_add_mod, List.length_cons]
    congr 1
    omega

theorem step (h : Holds n r xs) (null : α) (c : MboxCall α) :
    (mboxStep null r c).1 = (queueStep n xs c).1 ∧
      Holds n (mboxStep null r c).2 (queueStep n xs c).2 := by
  cases c with
  | atMboxTrypost msg =>
    rw [mboxStep, queueStep]
    by_cases hlen : xs.length = n
    · rw [if_pos hlen, h.write_full msg hlen]
      exact ⟨rfl, h⟩
    · obtain ⟨hret, hholds⟩ := h.write msg hlen
      rw [if_neg hlen]
      exact ⟨by simp [hret], hholds⟩
  | atMboxTryfetch =>
    rw [mboxStep]
    cases xs with
    | nil =>
      rw [h.read_empty null]
      exact ⟨rfl, h⟩
    | cons x xs =>
      obtain ⟨hret, hholds⟩ := h.read null
      exact ⟨by simp [hret, queueStep], hholds⟩

end Holds

theorem holds_create {n : ℕ} (hn : 2 ≤ n) (buffer : ℕ → α) :
    Holds n ⟨buffer, n, 0, 0, false⟩ [] where
  two_le := hn
  length_eq := rfl
  ring := ⟨by dsimp only; omega, Nat.zero_le n, fun i hi => absurd hi (Nat.not_lt_zero i),
    fun _ _ _ => trivial⟩
  full_iff := by simp; omega
  tail_eq := rfl

/-- **The mailbox is a bounded queue.** -/
theorem at_mbox_fifo {n : ℕ} (hn : 2 ≤ n) (null : α) (buffer : ℕ → α) :
    ∃ r, atRingbufCreate true n (some buffer) = some r ∧ ∀ calls,
      let mbox := run (mboxStep null) r calls
      let queue := run (queueStep n) [] calls
      mbox.1 = queue.1 ∧
        mbox.1.filterMap accepted = mbox.1.filterMap fetched ++ queue.2 ∧
        mbox.2.head < n ∧ mbox.2.tail < n ∧
        atRingbufAvailableReadSpace mbox.2 = queue.2.length ∧
        (∀ msg, (mboxStep null mbox.2 (.atMboxTrypost msg)).1.1 ≠ 0 ↔ queue.2.length = n) ∧
        (∀ c, (mboxStep null mbox.2 c).1.1 ≠ 0 → (mboxStep null mbox.2 c).2 = mbox.2) ∧
        ((mboxStep null mbox.2 .atMboxTryfetch).1.1 ≠ 0 ↔ queue.2 = []) := by
  have hcreate : atRingbufCreate true n (some buffer) = some ⟨buffer, n, 0, 0, false⟩ := by
    rw [atRingbufCreate, if_neg (by omega), if_pos rfl, Int.toNat_natCast]
  refine ⟨_, hcreate, fun calls => ?_⟩
  intro mbox queue
  obtain ⟨hlog, hholds⟩ : mbox.1 = queue.1 ∧ Holds n mbox.2 queue.2 :=
    run_simulates (fun r xs c h => h.step null c) calls (holds_create hn buffer)
  have hstep := hholds.step null
  have hfifo := queue_fifo n [] calls
  refine ⟨hlog, ?_, hholds.ring.start_lt, hholds.tail_lt, hholds.space, fun msg => ?_,
    fun c hfail => ?_, ?_⟩
  · rw [hlog]
    exact hfifo
  · rw [(hstep _).1, queueStep]
    split_ifs <;> simp [*]
  · cases c with
    | atMboxTrypost msg =>
      rw [(hstep _).1, queueStep] at hfail
      by_cases hlen : queue.2.length = n
      · rw [mboxStep, hholds.write_full msg hlen]
      · rw [if_neg hlen] at hfail
        exact absurd rfl hfail
    | atMboxTryfetch =>
      cases hqueue : queue.2 with
      | nil =>
        rw [hqueue] at hholds
        rw [mboxStep, hholds.read_empty null]
      | cons x xs =>
        rw [(hstep _).1, hqueue] at hfail
        exact absurd rfl hfail
  · rw [(hstep _).1]
    cases queue.2 with
    | nil => simp [queueStep, atMboxEmpty]
    | cons x xs => simp [queueStep]

/-- A third message finds no place behind two; after a fetch it does, in the slot of the first. -/
theorem at_mbox_fifo_two :
    ∃ r, atRingbufCreate true 2 (some fun _ => 0) = some r ∧
      let mbox := run (mboxStep 0) r
        [.atMboxTrypost 1, .atMboxTrypost 2, .atMboxTrypost 3, .atMboxTryfetch, .atMboxTrypost 3]
      mbox.1.filterMap accepted = mbox.1.filterMap fetched ++ [2, 3] ∧
        atRingbufAvailableReadSpace mbox.2 = 2 := by
  obtain ⟨r, hr, hall⟩ := at_mbox_fifo (n := 2) le_rfl 0 fun _ => 0
  obtain ⟨-, hfifo, -, -, hspace, -⟩ := hall
    [.atMboxTrypost 1, .atMboxTrypost 2, .atMboxTrypost 3, .atMboxTryfetch, .atMboxTrypost 3]
  exact ⟨r, hr, hfifo, hspace⟩

end Iotkit.AtMbox
