/-
# The send buffer of the HTTP client (`infra_httpc.c`)

A request is written piece by piece into a buffer that goes to the network whenever it is full.
The transport answers with the number of bytes it has written, and `_utils_fill_tx_buffer` takes
any answer but `0` for an error.
-/
import Iotkit.InfraDefs
import Iotkit.WriteBuffer

namespace Iotkit.Httpc

open List

abbrev httpclientSendBufSize : ℕ := 1024

/-- `send_buf` and `*send_idx`, and what has gone to the network. -/
structure TxBuffer where
  sendBuf : WriteBuffer UInt8
  sendIdx : ℕ
  sent : Bytes

/-- As `_http_send_header` starts. -/
def TxBuffer.start : TxBuffer := ⟨⟨List.replicate httpclientSendBufSize 0, false⟩, 0, []⟩

/-- The arguments `buf` and `len` of a call: so many bytes, or a string if `len` is `0`. -/
structure TxPiece where
  buf : Bytes
  len : UInt32
  readable : if len = 0 then 0 ∈ buf else len.toNat ≤ buf.length

def TxPiece.bytes (piece : TxPiece) : Bytes :=
  if piece.len = 0 then piece.buf.takeWhile (· ≠ 0) else piece.buf.take piece.len.toNat

/-- `len`, after `strlen` has been stored in it. -/
def TxPiece.txLen (piece : TxPiece) : UInt32 :=
  if piece.len = 0 then UInt32.ofNat (piece.buf.takeWhile (· ≠ 0)).length else piece.len

/-- The loop of `_utils_fill_tx_buffer`.  Neither `buf` nor `idx` moves when the buffer has been
written, and `*send_idx` is set at the end only. -/
def fillTxLoop (write : Bytes → ℤ) (buf : Bytes) :
    ℕ → UInt32 → ℕ → TxBuffer → Option (ℤ × TxBuffer)
  | 0, _, _, _ => none
  | fuel + 1, len, idx, tx =>
    let cpLen := if len.toNat ≤ httpclientSendBufSize - idx then len.toNat
      else httpclientSendBufSize - idx
    let tx := { tx with sendBuf := tx.sendBuf.store idx (buf.take cpLen) }
    let idx := idx + cpLen
    let len := len - UInt32.ofNat cpLen
    let ret := if idx = httpclientSendBufSize then write tx.sendBuf.cells else 0
    let tx := if idx = httpclientSendBufSize then
      { tx with sent := tx.sent ++ tx.sendBuf.cells.take ret.toNat } else tx
    if ret ≠ 0 then some (ret, tx)
    else if len ≠ 0 then fillTxLoop write buf fuel len idx tx
    else some (successReturn, { tx with sendIdx := idx })

/-- `_utils_fill_tx_buffer`, with bounded fuel for its loop. -/
def utilsFillTxBuffer (write : Bytes → ℤ) (fuel : ℕ) (tx : TxBuffer) (piece : TxPiece) :
    Option (ℤ × TxBuffer) :=
  fillTxLoop write piece.buf fuel piece.txLen tx.sendIdx tx

/-- One call after the other, with what they return. -/
def fillTxBuffers (write : Bytes → ℤ) (fuel : ℕ) :
    TxBuffer → List TxPiece → Option (List ℤ × TxBuffer)
  | tx, [] => some ([], tx)
  | tx, piece :: pieces =>
    (utilsFillTxBuffer write fuel tx piece).bind fun call =>
      (fillTxBuffers write fuel call.2 pieces).map fun calls => (call.1 :: calls.1, calls.2)

/-- A transport that writes everything it is given. -/
def netWriteAll (data : Bytes) : ℤ := data.length

/-- All pieces are on the network or in the buffer, and the buffer has room. -/
def TxBuffer.Holds (tx : TxBuffer) (pieces : List TxPiece) : Prop :=
  tx.sent ++ tx.sendBuf.cells.take tx.sendIdx = pieces.flatMap TxPiece.bytes ∧
    tx.sendIdx < httpclientSendBufSize

/-- The calls return, without an error, and nothing is lost. -/
def FillsAll (pieces : List TxPiece) : Prop :=
  ∃ fuel rets tx, fillTxBuffers netWriteAll fuel TxBuffer.start pieces = some (rets, tx) ∧
    (∀ ret ∈ rets, ret = successReturn) ∧ tx.Holds pieces

/-! ## One call -/

theorem length_take_txLen (piece : TxPiece) :
    (piece.buf.take piece.txLen.toNat).length = piece.txLen.toNat := by
  rw [length_take, Nat.min_eq_left]
  have hreadable := piece.readable
  unfold TxPiece.txLen
  by_cases hlen : piece.len = 0
  · rw [if_pos hlen, UInt32.toNat_ofNat']
    exact (Nat.mod_le _ _).trans (List.takeWhile_prefix _).length_le
  · rw [if_neg hlen] at hreadable ⊢
    exact hreadable

theorem bytes_eq_take {piece : TxPiece} (h : piece.bytes.length < 2 ^ 32) :
    piece.buf.take piece.txLen.toNat = piece.bytes := by
  unfold TxPiece.bytes TxPiece.txLen at *
  by_cases hlen : piece.len = 0
  · rw [if_pos hlen] at h ⊢
    rw [if_pos hlen, UInt32.toNat_ofNat', Nat.mod_eq_of_lt h]
    exact (prefix_iff_eq_take.mp (List.takeWhile_prefix _)).symm
  · rw [if_neg hlen, if_neg hlen]

variable {tx : TxBuffer} {piece : TxPiece}

variable (write : Bytes → ℤ) (fuel : ℕ)

theorem fill_of_lt (h : tx.sendIdx + piece.txLen.toNat < httpclientSendBufSize) :
    utilsFillTxBuffer write (fuel + 1) tx piece = some (successReturn,
        { tx with
          sendBuf := tx.sendBuf.store tx.sendIdx (piece.buf.take piece.txLen.toNat)
          sendIdx := tx.sendIdx + piece.txLen.toNat }) := by
  have hroom : piece.txLen.toNat ≤ httpclientSendBufSize - tx.sendIdx := by omega
  unfold utilsFillTxBuffer fillTxLoop
  simp only [if_pos hroom, if_neg h.ne, UInt32.ofNat_toNat, UInt32.sub_self, ne_eq,
    not_true_eq_false, if_false]

theorem fill_of_le (hsize : tx.sendBuf.size = httpclientSendBufSize)
    (hidx : tx.sendIdx < httpclientSendBufSize)
    (h : httpclientSendBufSize ≤ tx.sendIdx + piece.txLen.toNat) :
    ∃ sendBuf sent, utilsFillTxBuffer netWriteAll (fuel + 1) tx piece =
      some ((httpclientSendBufSize : ℤ), ⟨sendBuf, tx.sendIdx, sent⟩) := by
  have hcpLen : (if piece.txLen.toNat ≤ httpclientSendBufSize - tx.sendIdx then
      piece.txLen.toNat else httpclientSendBufSize - tx.sendIdx) =
      httpclientSendBufSize - tx.sendIdx := by
    split_ifs with hroom
    · omega
    · rfl
  have hfull : tx.sendIdx + (httpclientSendBufSize - tx.sendIdx) = httpclientSendBufSize := by
    omega
  have hwrite (l : Bytes) :
      netWriteAll (tx.sendBuf.store tx.sendIdx l).cells = (httpclientSendBufSize : ℤ) := by
    show ((tx.sendBuf.store tx.sendIdx l).size : ℤ) = _
    rw [WriteBuffer.size_store, hsize]
  unfold utilsFillTxBuffer fillTxLoop
  simp only [hcpLen, hfull, hwrite, if_true]
  rw [if_pos (by decide)]
  exact ⟨_, _, rfl⟩

/-! ## Runs -/

/-- Nothing has been sent yet. -/
structure TxBuffer.Gathers (tx : TxBuffer) (pieces : List TxPiece) : Prop where
  size : tx.sendBuf.size = httpclientSendBufSize
  sent : tx.sent = []
  sendIdx : tx.sendIdx = (pieces.flatMap TxPiece.bytes).length
  room : tx.sendIdx < httpclientSendBufSize
  cells : pieces.flatMap TxPiece.bytes <+: tx.sendBuf.cells

theorem gathers_start : TxBuffer.start.Gathers [] where
  size := length_replicate
  sent := rfl
  sendIdx := rfl
  room := Nat.zero_lt_succ _
  cells := nil_prefix

variable {pieces : List TxPiece}

theorem TxBuffer.Gathers.holds (h : tx.Gathers pieces) : tx.Holds pieces := by
  refine ⟨?_, h.room⟩
  rw [h.sent, nil_append, h.sendIdx]
  exact (prefix_iff_eq_take.mp h.cells).symm

theorem TxBuffer.Gathers.step (h : tx.Gathers pieces) (fuel : ℕ)
    (hroom : tx.sendIdx + piece.bytes.length < httpclientSendBufSize) :
    ∃ tx', utilsFillTxBuffer netWriteAll (fuel + 1) tx piece = some (successReturn, tx') ∧
      tx'.Gathers (pieces ++ [piece]) := by
  have hshort : piece.bytes.length < 2 ^ 32 :=
    (Nat.le_add_left _ _).trans_lt (hroom.trans (by decide))
  have hbytes : piece.buf.take piece.txLen.toNat = piece.bytes := bytes_eq_take hshort
  have hlen : piece.txLen.toNat = piece.bytes.length := by
    rw [← hbytes, length_take_txLen]
  refine ⟨_, fill_of_lt netWriteAll fuel (by rw [hlen]; exact hroom), ?_⟩
  have hflat : (pieces ++ [piece]).flatMap TxPiece.bytes =
      pieces.flatMap TxPiece.bytes ++ piece.bytes := by
    rw [flatMap_append, flatMap_singleton]
  refine ⟨?_, h.sent, ?_, ?_, ?_⟩
  · exact (WriteBuffer.size_store _ _ _).trans h.size
  · rw [hflat, length_append, ← h.sendIdx, hlen]
  · rw [hlen]
    exact hroom
  · rw [hflat, hbytes, h.sendIdx]
    apply WriteBuffer.prefix_store h.cells
    rw [← h.sendIdx, h.size]
    exact hroom.le

theorem TxBuffer.Gathers.step_of_le (h : tx.Gathers pieces) (fuel : ℕ)
    (hroom : httpclientSendBufSize ≤ tx.sendIdx + piece.bytes.length) :
    ∃ ret tx', utilsFillTxBuffer netWriteAll (fuel + 1) tx piece = some (ret, tx') ∧
      (ret = successReturn → ¬tx'.Holds (pieces ++ [piece])) := by
  by_cases hlen : tx.sendIdx + piece.txLen.toNat < httpclientSendBufSize
  · -- the length of a string has been cut to 32 bits
    refine ⟨_, _, fill_of_lt netWriteAll fuel hlen, fun _ hholds => ?_⟩
    have hidx := hholds.2
    have hlength := congrArg List.length hholds.1
    rw [flatMap_append, flatMap_singleton, length_append, length_append,
      length_take, h.sent, ← h.sendIdx, length_nil, Nat.zero_add] at hlength
    have hle := hlength.ge.trans (Nat.min_le_left _ _)
    exact absurd hidx (not_lt.mpr (hroom.trans hle))
  · obtain ⟨sendBuf, sent, hfill⟩ := fill_of_le fuel h.size h.room (not_lt.mp hlen)
    exact ⟨_, _, hfill, fun hret => absurd hret (by decide)⟩

theorem fillTxBuffers_append (pieces pieces' : List TxPiece) :
    fillTxBuffers write fuel tx (pieces ++ pieces') =
      (fillTxBuffers write fuel tx pieces).bind fun calls =>
        (fillTxBuffers write fuel calls.2 pieces').map fun calls' =>
          (calls.1 ++ calls'.1, calls'.2) := by
  induction pieces generalizing tx with
  | nil =>
    show _ = (fillTxBuffers write fuel tx pieces').map fun calls' => calls'
    rw [Option.map_id']
    rfl
  | cons piece pieces ih =>
    rw [cons_append, fillTxBuffers, fillTxBuffers]
    cases utilsFillTxBuffer write fuel tx piece with
    | none => rfl
    | some call =>
      rw [Option.bind_some, Option.bind_some, ih]
      cases fillTxBuffers write fuel call.2 pieces with
      | none => rfl
      | some calls =>
        rw [Option.bind_some, Option.map_map]
        rfl

theorem fillTxBuffers_concat (pieces : List TxPiece) (piece : TxPiece) :
    fillTxBuffers write fuel tx (pieces ++ [piece]) =
      (fillTxBuffers write fuel tx pieces).bind fun calls =>
        (utilsFillTxBuffer write fuel calls.2 piece).map fun call =>
          (calls.1 ++ [call.1], call.2) := by
  rw [fillTxBuffers_append]
  congr 1
  funext calls
  rw [fillTxBuffers]
  cases utilsFillTxBuffer write fuel calls.2 piece with
  | none => rfl
  | some call => rfl

/-- The length of what is to be sent. -/
def txTotal (pieces : List TxPiece) : ℕ := (pieces.flatMap TxPiece.bytes).length

theorem txTotal_concat (pieces : List TxPiece) (piece : TxPiece) :
    txTotal (pieces ++ [piece]) = txTotal pieces + piece.bytes.length := by
  rw [txTotal, flatMap_append, flatMap_singleton, length_append, txTotal]

/-- Pieces that leave room in the buffer are gathered, whatever the fuel. -/
theorem fillTxBuffers_of_lt (pieces : List TxPiece) (h : txTotal pieces < httpclientSendBufSize) :
    ∃ rets tx, fillTxBuffers netWriteAll (fuel + 1) TxBuffer.start pieces = some (rets, tx) ∧
      (∀ ret ∈ rets, ret = successReturn) ∧ tx.Gathers pieces := by
  induction pieces using List.reverseRecOn with
  | nil => exact ⟨[], _, rfl, forall_mem_nil _, gathers_start⟩
  | append_singleton pieces piece ih =>
    rw [txTotal_concat] at h
    obtain ⟨rets, tx, hrun, hrets, hgathers⟩ := ih ((Nat.le_add_right _ _).trans_lt h)
    have hroom : tx.sendIdx + piece.bytes.length < httpclientSendBufSize := by
      rw [hgathers.sendIdx]
      exact h
    obtain ⟨tx', hfill, hgathers'⟩ := hgathers.step fuel hroom
    refine ⟨rets ++ [successReturn], tx', ?_, fun ret hret => ?_, hgathers'⟩
    · rw [fillTxBuffers_concat, hrun, Option.bind_some, hfill]
      rfl
    · rcases mem_append.mp hret with hret | hret
      · exact hrets ret hret
      · exact mem_singleton.mp hret

theorem not_fillsAll_concat {piece : TxPiece} (h : txTotal pieces < httpclientSendBufSize)
    (hfull : httpclientSendBufSize ≤ txTotal (pieces ++ [piece])) :
    ¬FillsAll (pieces ++ [piece]) := by
  rintro ⟨fuel, rets, tx, hrun, hrets, hholds⟩
  rw [fillTxBuffers_concat] at hrun
  cases fuel with
  | zero =>
    -- no call returns without fuel
    cases hcalls : fillTxBuffers netWriteAll 0 TxBuffer.start pieces with
    | none => rw [hcalls] at hrun; cases hrun
    | some calls => rw [hcalls] at hrun; cases hrun
  | succ fuel =>
    obtain ⟨rets₀, tx₀, hrun₀, -, hgathers⟩ := fillTxBuffers_of_lt fuel pieces h
    have hroom : httpclientSendBufSize ≤ tx₀.sendIdx + piece.bytes.length := by
      rw [hgathers.sendIdx]
      exact hfull.trans_eq (txTotal_concat pieces piece)
    obtain ⟨ret, tx', hfill, hbad⟩ := hgathers.step_of_le fuel hroom
    rw [hrun₀, Option.bind_some, hfill] at hrun
    cases hrun
    exact hbad (hrets ret (mem_append_right _ (mem_singleton_self ret))) hholds

/-- Nothing is lost, at any point of a run, if and only if the pieces together are shorter than
the buffer. -/
theorem fillsAll_iff (pieces : List TxPiece) :
    (∀ l, l <+: pieces → FillsAll l) ↔ txTotal pieces < httpclientSendBufSize := by
  constructor
  · intro hall
    induction pieces using List.reverseRecOn with
    | nil => exact Nat.zero_lt_succ _
    | append_singleton pieces piece ih =>
      have hlt := ih fun l hl => hall l (hl.trans (prefix_append _ _))
      by_contra hfull
      exact not_fillsAll_concat hlt (not_lt.mp hfull) (hall _ prefix_rfl)
  · rintro hlt l ⟨l', rfl⟩
    have hle : txTotal l ≤ txTotal (l ++ l') := by
      rw [txTotal, txTotal, flatMap_append, length_append]
      exact Nat.le_add_right _ _
    obtain ⟨rets, tx, hrun, hrets, hgathers⟩ := fillTxBuffers_of_lt 0 l (hle.trans_lt hlt)
    exact ⟨1, rets, tx, hrun, hrets, hgathers.holds⟩

theorem readable_full :
    if (1024 : UInt32) = 0 then 0 ∈ List.replicate 1024 (0x61 : UInt8)
    else (1024 : UInt32).toNat ≤ (List.replicate 1024 (0x61 : UInt8)).length := by
  rw [if_neg (by decide), length_replicate]
  rfl

def fullPiece : TxPiece := ⟨List.replicate 1024 0x61, 1024, readable_full⟩

/-- It is written, and reported as an error. -/
theorem fill_full_reports : ¬FillsAll [fullPiece] := by
  have hbytes : fullPiece.bytes.length = httpclientSendBufSize := by
    show ((List.replicate 1024 (0x61 : UInt8)).take 1024).length = _
    rw [length_take, length_replicate]
    rfl
  have hempty : txTotal [] < httpclientSendBufSize := Nat.zero_lt_succ _
  apply not_fillsAll_concat hempty
  rw [txTotal_concat, hbytes]
  exact Nat.le_add_left _ _

end Iotkit.Httpc
