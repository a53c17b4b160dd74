/-
# The byte stream of an AT connection (`at_conn_mgmt.c`)

The payloads that `at_conn_input` delivers wait in the mailbox of the connection, and
`at_conn_recv` reads them as a stream.  A payload that comes while a read waits stands in the
mailbox when the read gets to it, so that runs in which the two alternate are all there are.  The
length of a payload is kept in 16 bits, and what a read returns is an `int`.
-/
import Iotkit.GuardedRun
import Iotkit.LibC

namespace Iotkit.At

open GuardedRun LibC List

/-! ## The connection -/

/-- An `at_netbuf_t`; `len` is its field of 16 bits. -/
structure AtNetbuf where
  payload : Bytes
  len : ℕ
  deriving DecidableEq

/-- The fields of a `struct at_conn` of type `NETCONN_TCP`, the only type there is, that the
stream needs. -/
structure AtConn where
  lastdata : Option AtNetbuf
  lastoffset : ℕ
  recvmbox : List AtNetbuf
  deriving DecidableEq

def atNewconn : AtConn := ⟨none, 0, []⟩

/-- The value of a `uint16_t` expression. -/
def toUInt16 (x : ℕ) : ℕ := x % 2 ^ 16

variable (conn : AtConn)

/-- `at_conn_input` for a connection that is there.  `valid` is whether its other arguments are,
and `memory` whether the payload can be allocated. -/
def atConnInput (valid memory : Bool) (data : Bytes) : ℤ × AtConn :=
  if data = [] ∨ valid = false ∨ memory = false then (-1, conn)
  else (0, { conn with recvmbox := conn.recvmbox ++ [⟨data, toUInt16 data.length⟩] })

/-- The payload that a pass of `at_conn_recv` reads from: the one it has left, or the next one
of the mailbox. -/
def atConnFetch : Option (AtNetbuf × AtConn) :=
  match conn.lastdata with
  | some buf => some (buf, conn)
  | none =>
    match conn.recvmbox with
    | [] => none
    | buf :: rest => some (buf, { conn with lastdata := some buf, recvmbox := rest })

/-- One pass of the loop of `at_conn_recv` over a payload: what is copied, and the connection. -/
def recvPass (buf : AtNetbuf) (len : ℕ) : Bytes × AtConn :=
  let buflen := toUInt16 (buf.len + 2 ^ 16 - conn.lastoffset)
  let copylen := if len > buflen then buflen else toUInt16 len
  ((buf.payload.drop conn.lastoffset).take copylen,
    if buflen > copylen then
      { conn with lastdata := some buf, lastoffset := toUInt16 (conn.lastoffset + copylen) }
    else { conn with lastdata := none, lastoffset := 0 })

/-- The loop of `at_conn_recv`, which has copied `mem` so far: the value returned, the bytes in
the buffer of the caller, and the connection.  It ends when `len` bytes are copied or the
mailbox stays empty. -/
def recvLoop : ℕ → AtConn → ℕ → Bytes → Option (ℤ × Bytes × AtConn)
  | 0, _, _, _ => none
  | fuel + 1, conn, len, mem =>
    match atConnFetch conn with
    | none =>
      some (if 0 < toInt32 mem.length then toInt32 mem.length else -1, mem, conn)
    | some (buf, conn) =>
      match recvPass conn buf len with
      | (copied, conn) =>
        if len - copied.length = 0 then
          some (toInt32 (mem ++ copied).length, mem ++ copied, conn)
        else recvLoop fuel conn (len - copied.length) (mem ++ copied)

/-- `at_conn_recv` for a connection that is there and a buffer that is not null. -/
def atConnRecv (len : ℕ) : Option (ℤ × Bytes × AtConn) :=
  if len = 0 then some (-1, [], conn)
  else recvLoop (conn.recvmbox.length + 2) conn len []

/-! ## What is still unread -/

def AtConn.left : Bytes :=
  match conn.lastdata with
  | none => []
  | some buf => buf.payload.drop conn.lastoffset

def AtConn.unread : Bytes :=
  conn.left ++ conn.recvmbox.flatMap (·.payload)

/-- The length of a payload is known. -/
def AtNetbuf.Whole (buf : AtNetbuf) : Prop :=
  buf.len = buf.payload.length ∧ buf.payload ≠ [] ∧ buf.payload.length < 2 ^ 16

/-- All payloads are whole, and the one that a read has left is not read to its end. -/
structure AtConn.Whole (conn : AtConn) : Prop where
  mbox : ∀ buf ∈ conn.recvmbox, buf.Whole
  last : ∀ buf ∈ conn.lastdata, buf.Whole ∧ conn.lastoffset < buf.payload.length
  offset : conn.lastdata = none → conn.lastoffset = 0

theorem toUInt16_of_lt {x : ℕ} (h : x < 2 ^ 16) : toUInt16 x = x := Nat.mod_eq_of_lt h

theorem AtConn.Whole.fetch {conn : AtConn} (h : conn.Whole) :
    (atConnFetch conn = none ∧ conn.unread = [] ∧ conn.recvmbox = []) ∨
      ∃ buf conn', atConnFetch conn = some (buf, conn') ∧ conn'.Whole ∧
        conn'.lastdata = some buf ∧ conn'.unread = conn.unread ∧
        conn'.recvmbox.length + 1 ≤ conn.recvmbox.length + (if conn.lastdata = none then 0 else 1) := by
  unfold atConnFetch
  cases hlast : conn.lastdata with
  | some buf =>
    exact Or.inr ⟨buf, conn, rfl, h, hlast, rfl, by simp⟩
  | none =>
    cases hmbox : conn.recvmbox with
    | nil => exact Or.inl ⟨rfl, by simp [unread, left, hlast, hmbox], rfl⟩
    | cons buf rest =>
      have hbuf := h.mbox buf (by simp [hmbox])
      have hoffset := h.offset hlast
      refine Or.inr ⟨buf, _, rfl, ⟨?_, ?_, by simp⟩, rfl, ?_, by simp⟩
      · exact fun other hother => h.mbox other (by simp [hmbox, hother])
      · rintro _ ⟨rfl⟩
        refine ⟨hbuf, ?_⟩
        rw [hoffset]
        exact length_pos_iff.mpr hbuf.2.1
      · simp [unread, left, hlast, hmbox, hoffset]

theorem AtConn.Whole.pass {conn : AtConn} (h : conn.Whole) {buf : AtNetbuf}
    (hbuf : conn.lastdata = some buf) (len : ℕ) :
    ∃ conn', recvPass conn buf len = (conn.left.take len, conn') ∧ conn'.Whole ∧
      conn'.recvmbox = conn.recvmbox ∧ conn'.left = conn.left.drop len ∧
      (conn.left.length < len → conn'.lastdata = none) ∧ conn.left ≠ [] := by
  obtain ⟨⟨hwhole, hne, hlt⟩, hoffset⟩ := h.last buf hbuf
  have hleft : conn.left = buf.payload.drop conn.lastoffset := by simp [left, hbuf]
  have hleftlen : conn.left.length = buf.payload.length - conn.lastoffset := by
    rw [hleft, length_drop]
  have hbuflen : toUInt16 (buf.len + 2 ^ 16 - conn.lastoffset) = conn.left.length := by
    rw [hwhole, hleftlen]
    unfold toUInt16
    omega
  have hnonempty : conn.left ≠ [] := by
    intro hnil
    rw [hnil, length_nil] at hleftlen
    omega
  unfold recvPass
  rw [hbuflen, ← hleft]
  dsimp only
  by_cases hgt : len > conn.left.length
  · rw [if_pos hgt, if_neg (lt_irrefl _), take_length, take_of_length_le hgt.le]
    refine ⟨_, rfl, ⟨h.mbox, by simp, fun _ => rfl⟩, rfl, ?_, fun _ => rfl, hnonempty⟩
    rw [drop_eq_nil_of_le hgt.le]
    rfl
  have hsmall : toUInt16 len = len := toUInt16_of_lt (by omega)
  rw [if_neg hgt, hsmall]
  by_cases hkeep : conn.left.length > len
  · rw [if_pos hkeep]
    have hoff : toUInt16 (conn.lastoffset + len) = conn.lastoffset + len :=
      toUInt16_of_lt (by omega)
    refine ⟨_, rfl, ⟨h.mbox, ?_, by simp⟩, rfl, ?_, fun hshort => by omega, hnonempty⟩
    · rintro _ ⟨rfl⟩
      refine ⟨⟨hwhole, hne, hlt⟩, ?_⟩
      simp only [hoff]
      omega
    · rw [hleft, drop_drop]
      simp only [left, hoff]
  · rw [if_neg hkeep]
    refine ⟨_, rfl, ⟨h.mbox, by simp, fun _ => rfl⟩, rfl, ?_, fun _ => rfl, hnonempty⟩
    rw [drop_eq_nil_of_le (by omega)]
    rfl

/-! ## One read -/

/-- **The loop.**  With passes enough for the mailbox it ends, and has copied the first of the
unread bytes, as many as were asked for or as there are. -/
theorem AtConn.Whole.recvLoop_eq {fuel : ℕ} {conn : AtConn} (h : conn.Whole) {len : ℕ}
    (hlen : 0 < len) {mem : Bytes}
    (hfuel : conn.recvmbox.length + (if conn.lastdata = none then 0 else 1) < fuel)
    (hint : (mem ++ conn.unread.take len).length < 2 ^ 31) :
    ∃ conn', recvLoop fuel conn len mem = some (if mem ++ conn.unread.take len = [] then -1
          else ((mem ++ conn.unread.take len).length : ℤ), mem ++ conn.unread.take len, conn') ∧
      conn'.Whole ∧ conn'.unread = conn.unread.drop len := by
  induction fuel generalizing conn len mem with
  | zero => omega
  | succ fuel ih =>
    rw [recvLoop]
    -- no data is left, or the next buffer is fetched
    rcases h.fetch with ⟨hfetch, hnil, -⟩ | ⟨buf, fetched, hfetch, hwhole, hlast, hunread, hshorter⟩
    · simp only [hfetch, hnil, take_nil, append_nil, drop_nil] at hint ⊢
      have hmem : toInt32 mem.length = mem.length := toInt32_of_bounds (by omega) (by omega)
      refine ⟨conn, ?_, h, hnil⟩
      rw [hmem]
      cases mem with
      | nil => rfl
      | cons b mem => simp
    obtain ⟨next, hpass, hnext, hmbox, hleft, hempty, hne⟩ := hwhole.pass hlast len
    have hsplit : conn.unread = fetched.left ++ fetched.recvmbox.flatMap (·.payload) :=
      hunread.symm
    have hnextunread : next.unread =
        fetched.left.drop len ++ fetched.recvmbox.flatMap (·.payload) := by
      rw [unread, hleft, hmbox]
    simp only [hfetch, hpass]
    -- the buffer has all that is still wanted, or it is used up
    by_cases hdone : len - (fetched.left.take len).length = 0
    · have hle : len ≤ fetched.left.length := by
        rw [length_take] at hdone
        omega
      have htake : conn.unread.take len = fetched.left.take len := by
        rw [hsplit, take_append_of_le_length hle]
      rw [if_pos hdone, htake]
      rw [htake] at hint
      have hnonempty : mem ++ fetched.left.take len ≠ [] := by
        simp only [ne_eq, append_eq_nil_iff, take_eq_nil_iff, not_and, not_or]
        exact fun _ => ⟨hlen.ne', hne⟩
      rw [if_neg hnonempty, toInt32_of_bounds (by omega) (by exact_mod_cast hint)]
      refine ⟨next, rfl, hnext, ?_⟩
      rw [hnextunread, hsplit, drop_append_of_le_length hle]
    · have hlt : fetched.left.length < len := by
        rw [length_take] at hdone
        omega
      have htake : fetched.left.take len = fetched.left := take_of_length_le hlt.le
      have hdrop : fetched.left.drop len = [] := drop_eq_nil_of_le hlt.le
      rw [if_neg hdone, htake]
      have hrest : next.unread = fetched.recvmbox.flatMap (·.payload) := by
        rw [hnextunread, hdrop, nil_append]
      have hall : fetched.left ++ next.unread.take (len - fetched.left.length) =
          conn.unread.take len := by
        rw [hsplit, take_append, htake, hrest]
      have hlast' : next.lastdata = none := hempty hlt
      have hpos : 0 < len - fetched.left.length := by omega
      -- a buffer that is used up makes the rest shorter
      have hfuel' : next.recvmbox.length + (if next.lastdata = none then 0 else 1) < fuel := by
        rw [hmbox, if_pos hlast']
        omega
      have hint' : ((mem ++ fetched.left) ++
          next.unread.take (len - fetched.left.length)).length < 2 ^ 31 := by
        rwa [append_assoc, hall]
      obtain ⟨conn', hloop, hconn', hdropped⟩ := ih hnext hpos hfuel' hint'
      rw [append_assoc, hall] at hloop
      refine ⟨conn', hloop, hconn', ?_⟩
      rw [hdropped, hsplit, hrest, drop_append, hdrop, nil_append]

/-- **A read.**  It returns the first of the unread bytes, as many as were asked for or as there
are, and -1 when there are none. -/
theorem AtConn.Whole.recv_eq {conn : AtConn} (h : conn.Whole) {len : ℕ} (hlen : 0 < len)
    (hint : (conn.unread.take len).length < 2 ^ 31) :
    ∃ conn', atConnRecv conn len =
        some (if conn.unread = [] then -1 else ((conn.unread.take len).length : ℤ),
          conn.unread.take len, conn') ∧
      conn'.Whole ∧ conn'.unread = conn.unread.drop len := by
  have hfuel : conn.recvmbox.length + (if conn.lastdata = none then 0 else 1) <
      conn.recvmbox.length + 2 := by
    split <;> omega
  have hint' : ([] ++ conn.unread.take len).length < 2 ^ 31 := hint
  obtain ⟨conn', hloop, hwhole, hunread⟩ := h.recvLoop_eq hlen hfuel hint'
  refine ⟨conn', ?_, hwhole, hunread⟩
  have hnil : conn.unread.take len = [] ↔ conn.unread = [] := by
    rw [take_eq_nil_iff]
    exact or_iff_right hlen.ne'
  rw [atConnRecv, if_neg hlen.ne', hloop, nil_append]
  simp only [hnil]

/-! ## Runs -/

inductive AtOp
  | input (valid memory : Bool) (data : Bytes)
  | recv (len : ℕ)

/-- A connection, the payloads it has accepted one behind the other, and the bytes that reads
have returned. -/
structure AtStream where
  conn : AtConn
  delivered : Bytes
  returned : Bytes

/-- The bytes that a read has returned: as many of its buffer as it says. -/
def returnedBytes (ret : ℤ) (mem : Bytes) : Bytes := mem.take ret.toNat

def atStep (s : AtStream) : AtOp → AtStream
  | .input valid memory data =>
    match atConnInput s.conn valid memory data with
    | (ret, conn) =>
      ⟨conn, if ret = 0 then s.delivered ++ data else s.delivered, s.returned⟩
  | .recv len =>
    match atConnRecv s.conn len with
    | none => s
    | some (ret, mem, conn) => ⟨conn, s.delivered, s.returned ++ returnedBytes ret mem⟩

def atStart : AtStream := ⟨atNewconn, [], []⟩

/-- A payload that is accepted fits the field for its length, and what a read can take fits an
`int`. -/
def AtAdmissible (s : AtStream) : AtOp → Prop
  | .input valid memory data => valid = true → memory = true → data.length < 2 ^ 16
  | .recv len => (s.conn.unread.take len).length < 2 ^ 31

instance : ∀ (s : AtStream) (op : AtOp), Decidable (AtAdmissible s op)
  | _, .input valid memory data =>
    inferInstanceAs (Decidable (valid = true → memory = true → data.length < 2 ^ 16))
  | s, .recv len => inferInstanceAs (Decidable ((s.conn.unread.take len).length < 2 ^ 31))

/-- What was delivered is what was returned followed by what is unread. -/
structure AtStream.Kept (s : AtStream) : Prop where
  whole : s.conn.Whole
  delivered_eq : s.delivered = s.returned ++ s.conn.unread

theorem AtStream.Kept.input {s : AtStream} (h : s.Kept) (valid memory : Bool) {data : Bytes}
    (hok : valid = true → memory = true → data.length < 2 ^ 16) :
    (atStep s (.input valid memory data)).Kept := by
  unfold atStep atConnInput
  by_cases hrefused : data = [] ∨ valid = false ∨ memory = false
  · simp only [if_pos hrefused]
    exact ⟨h.whole, h.delivered_eq⟩
  simp only [if_neg hrefused, if_true]
  rw [not_or, not_or, Bool.not_eq_false, Bool.not_eq_false] at hrefused
  obtain ⟨hdata, hvalid, hmemory⟩ := hrefused
  have hfits : data.length < 2 ^ 16 := hok hvalid hmemory
  refine ⟨⟨?_, h.whole.last, h.whole.offset⟩, ?_⟩
  · exact forall_mem_append.mpr
      ⟨h.whole.mbox, forall_mem_singleton.mpr ⟨toUInt16_of_lt hfits, hdata, hfits⟩⟩
  · simp only [h.delivered_eq, AtConn.unread, AtConn.left, flatMap_append,
      flatMap_singleton, append_assoc]

theorem AtStream.Kept.recv {s : AtStream} (h : s.Kept) {len : ℕ}
    (hok : (s.conn.unread.take len).length < 2 ^ 31) : (atStep s (.recv len)).Kept := by
  rcases Nat.eq_zero_or_pos len with rfl | hlen
  · have hret : returnedBytes (-1) [] = [] := rfl
    simp only [atStep, atConnRecv, if_true, hret, append_nil]
    exact ⟨h.whole, h.delivered_eq⟩
  obtain ⟨conn', hrecv, hwhole, hunread⟩ := h.whole.recv_eq hlen hok
  simp only [atStep, hrecv]
  refine ⟨hwhole, ?_⟩
  have hbytes : returnedBytes (if s.conn.unread = [] then -1
      else ((s.conn.unread.take len).length : ℤ)) (s.conn.unread.take len) =
      s.conn.unread.take len := by
    by_cases hnil : s.conn.unread = []
    · simp [hnil, returnedBytes]
    · rw [if_neg hnil, returnedBytes, Int.toNat_natCast, take_length]
  rw [hbytes, hunread, append_assoc, take_append_drop]
  exact h.delivered_eq

theorem AtStream.Kept.step (s : AtStream) (op : AtOp) (h : s.Kept) (hok : AtAdmissible s op) :
    (atStep s op).Kept := by
  cases op with
  | input valid memory data => exact h.input valid memory hok
  | recv len => exact h.recv hok

/-- **The byte stream.**  In every run in which each accepted payload has fewer than 2 ^ 16 bytes and no
read can take 2 ^ 31: the bytes returned by the reads so far are a prefix of those delivered,
and the next read returns the first of the rest, as many as it asks for or as there are. -/
theorem at_stream_fifo (ops : List AtOp) (hok : AllSteps atStep AtAdmissible atStart ops) :
    let s := ops.foldl atStep atStart
    s.returned <+: s.delivered ∧
      ∀ len, 0 < len → AtAdmissible s (.recv len) →
        ∃ conn', atConnRecv s.conn len = some (if s.delivered.drop s.returned.length = [] then -1
            else (((s.delivered.drop s.returned.length).take len).length : ℤ),
          (s.delivered.drop s.returned.length).take len, conn') := by
  intro s
  have h : s.Kept := inv_of_allSteps AtStream.Kept.step ops
    ⟨⟨by simp [atStart, atNewconn], by simp [atStart, atNewconn], fun _ => rfl⟩, rfl⟩ hok
  have hrest : s.delivered.drop s.returned.length = s.conn.unread := by
    rw [h.delivered_eq, drop_left]
  refine ⟨⟨s.conn.unread, h.delivered_eq.symm⟩, fun len hlen hadm => ?_⟩
  obtain ⟨conn', hrecv, -, -⟩ := h.whole.recv_eq hlen hadm
  rw [hrest]
  exact ⟨conn', hrecv⟩

/-- Two payloads are read in a part of the first, and a read that spans both. -/
theorem at_stream_fifo_spans :
    let ops : List AtOp :=
      [.input true true [1, 2, 3], .input true true [4, 5], .recv 2, .recv 2]
    let s := ops.foldl atStep atStart
    s.delivered = [1, 2, 3, 4, 5] ∧ s.returned = [1, 2, 3, 4] ∧ s.returned <+: s.delivered := by
  intro ops s
  refine ⟨by decide, by decide, (at_stream_fifo ops ?_).1⟩
  exact ⟨by decide, by decide, by decide, by decide, trivial⟩

/-- Of a payload whose length is 1 in 16 bits one byte can be read. -/
theorem recv_long_payload (b : UInt8) {rest : Bytes}
    (hcount : toUInt16 (b :: rest).length = 1) :
    [AtOp.input true true (b :: rest), .recv 10].foldl atStep atStart =
      ⟨atNewconn, b :: rest, [b]⟩ := by
  have hinput : atStep atStart (.input true true (b :: rest)) =
      ⟨⟨none, 0, [⟨b :: rest, 1⟩]⟩, b :: rest, []⟩ := by
    have haccept : atConnInput atNewconn true true (b :: rest) =
        (0, ⟨none, 0, [⟨b :: rest, 1⟩]⟩) := by
      rw [atConnInput, if_neg (by simp), hcount]
      rfl
    simp only [atStep, atStart, haccept]
    rfl
  have hpass : recvPass ⟨some ⟨b :: rest, 1⟩, 0, []⟩ ⟨b :: rest, 1⟩ 10 = ([b], atNewconn) := by
    rw [recvPass, show toUInt16 (1 + 2 ^ 16 - 0) = 1 by decide]
    rfl
  have hrecv : atStep ⟨⟨none, 0, [⟨b :: rest, 1⟩]⟩, b :: rest, []⟩ (.recv 10) =
      ⟨atNewconn, b :: rest, [b]⟩ := by
    have hread : atConnRecv ⟨none, 0, [⟨b :: rest, 1⟩]⟩ 10 = some (1, [b], atNewconn) := by
      rw [atConnRecv, if_neg (by decide)]
      have hret : toInt32 (([] : Bytes) ++ [b]).length = 1 := by
        rw [nil_append, length_singleton]
        decide
      simp only [recvLoop, atConnFetch, hpass, hret]
      simp [atNewconn]
    simp only [atStep, hread]
    rfl
  rw [foldl_cons, hinput, foldl_cons, hrecv, foldl_nil]

/-- Of a payload of 65537 bytes one is returned, and the next read finds nothing. -/
theorem at_stream_fifo_broken :
    let s := [AtOp.input true true (7 :: List.replicate 65536 7), .recv 10].foldl atStep atStart
    s.delivered.length = 65537 ∧ s.returned = [7] ∧ atConnRecv s.conn 10 = some (-1, [], s.conn) := by
  have hlen (n : ℕ) (x : UInt8) : (x :: List.replicate n x).length = n + 1 := by
    rw [length_cons, length_replicate]
  have hcount : toUInt16 (65536 + 1) = 1 := by decide
  rw [recv_long_payload 7 ((hlen 65536 7).symm ▸ hcount)]
  exact ⟨hlen 65536 7, rfl, rfl⟩

end Iotkit.At
