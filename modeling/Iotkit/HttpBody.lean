/-
# The body of an HTTP response is put together (`infra_httpc.c`)

A response is fetched with buffers of any sizes over any split into reads.  What the calls store
is the body exactly when the first read brings the status line, the rest of the header fits its
buffer, the length is read from it as it is meant, and what comes with the header of the body
fits the first buffer of the caller: what does not is lost.
-/
import Iotkit.HttpRecv

namespace Iotkit.Http

open LibC List Option

/-- Fetches that are repeated until no more data is reported store the text, and each reports
the number of bytes that it has stored, for which it has room with a zero behind them. -/
def Fetches (bufLens : ℕ → ℕ) (http : HttpClient) (text : Bytes) : Prop :=
  ∃ fuel fetches, fetchAll fuel bufLens http = some fetches ∧
    fetches.flatMap (·.stored) = text ∧
    ∀ fetch ∈ fetches, fetch.count = fetch.stored.length ∧ fetch.stored.length < fetch.bufLen

/-! ## Responses -/

/-- The texts of a response: the status line without its end, the fields with the blank line
that ends them, and the body. -/
structure HttpResponse where
  status : Bytes
  fields : Bytes
  body : Bytes
  status_line : strstr crlf (status ++ crlf) = some crlf
  status_text : 0 ∉ status
  blank_line : strstr (crlf ++ crlf) fields = some (crlf ++ crlf)
  fields_text : 0 ∉ fields

namespace HttpResponse

variable (resp : HttpResponse)

def start (reads : ℕ → ℕ) : HttpClient :=
  ⟨⟨resp.status ++ crlf ++ (resp.fields ++ resp.body), reads⟩, ⟨false, 0, 0⟩⟩

/-- How many bytes the first read asks for and finds, if there are as many. -/
def firstRead (reads : ℕ → ℕ) : ℕ := min httpclientRaedHeadSize (max 1 (reads 0))

/-- How many bytes past the status line have been read when those of `n` of them stand in the
buffer and reads go on until the fields are there. -/
def headLength (fields : ℕ) : ℕ → (ℕ → ℕ) → ℕ → ℕ
  | 0, _, n => n
  | fuel + 1, reads, n =>
    if fields ≤ n then n
    else headLength fields fuel (fun i => reads (i + 1))
      (n + min (min httpclientRaedHeadSize (httpclientReadBufSize - n - 1)) (max 1 (reads 0)))

/-- The bytes of the body that come with the header. -/
def readAhead (reads : ℕ → ℕ) : Bytes :=
  resp.body.take (headLength resp.fields.length (resp.fields.length + 1)
    (fun i => reads (i + 1)) (firstRead reads - (resp.status.length + 2)) - resp.fields.length)

def StatusRead (reads : ℕ → ℕ) : Prop := resp.status.length + 2 ≤ firstRead reads

instance (reads : ℕ → ℕ) : Decidable (resp.StatusRead reads) :=
  inferInstanceAs (Decidable (_ ≤ _))

def FieldsFit : Prop := resp.fields.length < httpclientReadBufSize

instance : Decidable resp.FieldsFit := inferInstanceAs (Decidable (_ < _))

/-- The text that is read as the length of the body, if any. -/
def lengthText (reads : ℕ → ℕ) : Option Bytes :=
  contentLengthText (resp.fields ++ resp.readAhead reads)

/-- What it takes for the body to be put together. -/
structure Fits (reads : ℕ → ℕ) (bufLen : ℕ) : Prop where
  status_read : resp.StatusRead reads
  fields_fit : resp.FieldsFit
  length_read : (resp.lengthText reads).map atoi = some (resp.body.length : ℤ)
  ahead_fits : (resp.readAhead reads).length < bufLen

def Reassembles (reads bufLens : ℕ → ℕ) : Prop := Fetches bufLens (resp.start reads) resp.body

def Rejected (reads : ℕ → ℕ) (bufLen : ℕ) : Prop :=
  ∃ code result, httpclientRecvResponse bufLen (resp.start reads) = some result ∧
    result.ret = .error code

end HttpResponse

/-! ## The body -/

section Body

variable {bufLen : ℕ}

theorem utilsFillRxBuf_spec {stored data stored' : Bytes} {len : ℤ} {d d' : HttpData}
    {full : Bool} (hlen : len ≤ data.length)
    (h : utilsFillRxBuf bufLen stored data len d = some (full, stored', d')) :
    stored'.length + d'.retrieveLen = stored.length + d.retrieveLen ∧
      d'.responseContentLen = d.responseContentLen ∧ d'.isMore = d.isMore ∧
      (stored.length < bufLen → stored'.length < bufLen) := by
  unfold utilsFillRxBuf at h
  split_ifs at h with hroom hneg
  · obtain ⟨-, rfl, rfl⟩ : false = full ∧ stored ++ data.take len.toNat = stored' ∧
        { d with retrieveLen := d.retrieveLen - len } = d' := by simpa using h
    have htake : (data.take len.toNat).length = len.toNat := by
      rw [length_take]
      omega
    simp only [length_append, htake, true_and, Nat.cast_add]
    exact ⟨by omega, fun _ => by omega⟩
  · obtain ⟨-, rfl, rfl⟩ : true = full ∧
        stored ++ data.take (bufLen - 1 - stored.length) = stored' ∧
        { d with retrieveLen := d.retrieveLen - (bufLen - 1 - stored.length : ℕ) } = d' := by
      simpa using h
    have htake : (data.take (bufLen - 1 - stored.length)).length = bufLen - 1 - stored.length := by
      rw [length_take]
      omega
    simp only [length_append, htake, true_and, Nat.cast_add]
    exact ⟨by omega, fun _ => by omega⟩

/-- A call keeps count of what it stores, and ends well only when nothing is still to come. -/
theorem bodyLoop_count : ∀ (fuel : ℕ) {http : HttpClient} {stored data : Bytes}
    {result : RecvResult}, bodyLoop bufLen fuel http stored data = some result →
      stored.length < bufLen → result.ret = .success ∨ result.ret = .more →
      result.stored.length + result.http.data.retrieveLen = stored.length + http.data.retrieveLen ∧
        result.http.data.responseContentLen = http.data.responseContentLen ∧
        result.stored.length < bufLen ∧
        (result.ret = .success → result.http.data.retrieveLen = 0) ∧
        (result.ret = .more → result.http.data.isMore = http.data.isMore)
  | 0, _, _, _, _, h, _, _ => by simp [bodyLoop] at h
  | fuel + 1, http, stored, data, result, h, hroom, hret => by
      rw [bodyLoop] at h
      split at h
      · obtain rfl := Option.some.inj h
        simp at hret
      · next stored' d hfill =>
          obtain ⟨hsum, hcontent, hmore, hlt⟩ := utilsFillRxBuf_spec (min_le_left _ _) hfill
          obtain rfl := Option.some.inj h
          exact ⟨hsum, hcontent, hlt hroom, by simp, fun _ => hmore⟩
      · next stored' d hfill =>
          obtain ⟨hsum, hcontent, hmore, hlt⟩ := utilsFillRxBuf_spec (min_le_left _ _) hfill
          by_cases hzero : d.retrieveLen = 0
          · rw [if_pos hzero] at h
            obtain rfl := Option.some.inj h
            exact ⟨hsum, hcontent, hlt hroom, fun _ => hzero, by simp⟩
          rw [if_neg hzero] at h
          dsimp only at h
          split at h
          · obtain rfl := Option.some.inj h
            simp at hret
          · next got net hrecv =>
              obtain ⟨hsum', hcontent', hlt', hsuccess, hmore'⟩ :=
                bodyLoop_count fuel h (hlt hroom) hret
              exact ⟨hsum'.trans hsum, hcontent'.trans hcontent, hlt', hsuccess,
                fun hret => (hmore' hret).trans hmore⟩

theorem httpRecv_some {net net' : Net} {maxLen : ℕ} {got : Bytes}
    (h : httpRecv net maxLen = some (got, net')) :
    got ++ net'.bytes = net.bytes ∧ got.length ≤ maxLen ∧
      (0 < maxLen → net'.bytes.length < net.bytes.length) := by
  unfold httpRecv at h
  split_ifs at h with hnil
  obtain ⟨rfl, rfl⟩ := Prod.mk.inj (Option.some.inj h)
  have hpos := length_pos_of_ne_nil hnil
  refine ⟨take_append_drop _ _, ?_, fun hmax => ?_⟩
  · rw [length_take]
    omega
  · rw [length_drop]
    omega

theorem httpRecv_eq_none {net : Net} {maxLen : ℕ} (h : httpRecv net maxLen = none) :
    net.bytes = [] := by
  unfold httpRecv at h
  split_ifs at h with hnil
  exact hnil

/-- When more is awaited than there are bytes, a call does not end well, and more is awaited
after it as well. -/
theorem bodyLoop_short : ∀ (fuel : ℕ) {http : HttpClient} {stored data : Bytes}
    {result : RecvResult}, bodyLoop bufLen fuel http stored data = some result →
      (data.length + http.net.bytes.length : ℤ) < http.data.retrieveLen →
      (result.ret = .more ∧
        (result.http.net.bytes.length : ℤ) < result.http.data.retrieveLen) ∨
        ∃ code, result.ret = .error code
  | 0, _, _, _, _, h, _ => by simp [bodyLoop] at h
  | fuel + 1, http, stored, data, result, h, hshort => by
      have hmin : min (data.length : ℤ) http.data.retrieveLen = data.length :=
        min_eq_left (by omega)
      rw [bodyLoop, hmin, utilsFillRxBuf] at h
      by_cases hroom : (stored.length : ℤ) + data.length < bufLen - 1
      · simp only [hroom, if_true, not_lt.mpr (Int.natCast_nonneg data.length), if_false,
          show ¬ http.data.retrieveLen - data.length = 0 by omega] at h
        split at h
        · obtain rfl := Option.some.inj h
          exact .inr ⟨_, rfl⟩
        · next got net hrecv =>
            have hbytes := congrArg List.length (httpRecv_some hrecv).1
            rw [length_append] at hbytes
            exact bodyLoop_short fuel h (by simp only; omega)
      · simp only [hroom, if_false] at h
        obtain rfl := Option.some.inj h
        exact Or.inl ⟨rfl, by simp only; omega⟩

/-- A call for a length that is not negative fails exactly when the bytes end before the length and
before the buffer is full. -/
theorem bodyLoop_error_iff : ∀ (fuel : ℕ) {http : HttpClient} {stored data : Bytes},
    http.net.bytes.length + 1 < fuel → 0 ≤ http.data.retrieveLen → stored.length < bufLen →
      ∃ result, bodyLoop bufLen fuel http stored data = some result ∧
        ((∃ code, result.ret = .error code) ↔
          (data.length + http.net.bytes.length : ℤ) < http.data.retrieveLen ∧
            stored.length + data.length + http.net.bytes.length + 1 < bufLen)
  | 0, _, _, _, hfuel, _, _ => by omega
  | fuel + 1, http, stored, data, hfuel, hlen, hstored => by
      rw [bodyLoop, utilsFillRxBuf]
      by_cases hroom : (stored.length : ℤ) + min (data.length : ℤ) http.data.retrieveLen < bufLen - 1
      · have hpos : ¬ min (data.length : ℤ) http.data.retrieveLen < 0 := by omega
        simp only [hroom, if_true, hpos, if_false]
        by_cases hzero : http.data.retrieveLen - min (data.length : ℤ) http.data.retrieveLen = 0
        · rw [if_pos hzero]
          refine ⟨_, rfl, iff_of_false (by rintro ⟨_, ⟨⟩⟩) ?_⟩
          omega
        have hmin : min (data.length : ℤ) http.data.retrieveLen = data.length := by omega
        rw [if_neg hzero]
        simp only [hmin, Int.toNat_natCast, take_length] at hroom ⊢
        split
        · next hrecv =>
          -- the transport is at its end
          rw [httpRecv_eq_none hrecv, length_nil]
          exact ⟨_, rfl, iff_of_true ⟨_, rfl⟩ ⟨by omega, by omega⟩⟩
        · next got net hrecv =>
          obtain ⟨hbytes, -, hless⟩ := httpRecv_some hrecv
          have hsum := congrArg List.length hbytes
          rw [length_append] at hsum
          have hlt : net.bytes.length < http.net.bytes.length := hless (by
            rw [length_append]
            simp only [httpclientChunkSize]
            omega)
          obtain ⟨result, hresult, hiff⟩ := @bodyLoop_error_iff fuel
            ⟨net, { http.data with retrieveLen := http.data.retrieveLen - data.length }⟩
            (stored ++ data) got (by simp only; omega) (by simp only; omega)
            (by rw [length_append]; omega)
          refine ⟨result, hresult, hiff.trans ?_⟩
          rw [length_append]
          simp only
          omega
      · simp only [hroom, if_false]
        refine ⟨_, rfl, iff_of_false (by rintro ⟨_, ⟨⟩⟩) ?_⟩
        omega

/-- Bytes that are there and do not fit the buffer are lost. -/
theorem bodyLoop_lost {fuel : ℕ} {http : HttpClient} {data : Bytes} {result : RecvResult}
    (h : bodyLoop bufLen fuel http [] data = some result) (hbuf : 2 ≤ bufLen)
    (hdata : bufLen ≤ data.length)
    (hlen : http.data.retrieveLen = data.length + http.net.bytes.length) :
    result.ret = .more ∧ (result.http.net.bytes.length : ℤ) < result.http.data.retrieveLen := by
  obtain _ | fuel := fuel
  · simp [bodyLoop] at h
  have hmin : min (data.length : ℤ) http.data.retrieveLen = data.length :=
    min_eq_left (by omega)
  have hroom : ¬ ((([] : Bytes).length : ℤ) + data.length < bufLen - 1) := by
    simp only [length_nil]
    omega
  rw [bodyLoop, hmin, utilsFillRxBuf] at h
  simp only [hroom, if_false] at h
  obtain rfl := Option.some.inj h
  exact ⟨rfl, by simp only [length_nil]; omega⟩

/-- **The loop over the reads.**  When as many bytes are awaited as there are, and what is at hand
fits the buffer, the call stores them all, or as many as fill it. -/
theorem bodyLoop_sync : ∀ (fuel : ℕ) {http : HttpClient} {stored data : Bytes},
    http.net.bytes.length + 1 < fuel →
    http.data.retrieveLen = data.length + http.net.bytes.length →
    stored.length + data.length < bufLen →
      ∃ result, bodyLoop bufLen fuel http stored data = some result ∧
        ((result.ret = .success ∧ result.stored = stored ++ (data ++ http.net.bytes)) ∨
          (result.ret = .more ∧
            result.stored ++ result.http.net.bytes = stored ++ (data ++ http.net.bytes) ∧
            result.http.data.retrieveLen = result.http.net.bytes.length ∧
            result.stored.length + 1 = bufLen))
  | 0, _, _, _, hfuel, _, _ => by omega
  | fuel + 1, http, stored, data, hfuel, hlen, hfits => by
      have hmin : min (data.length : ℤ) http.data.retrieveLen = data.length :=
        min_eq_left (by omega)
      rw [bodyLoop, hmin, utilsFillRxBuf]
      -- what has come fits the buffer, or it fills it up
      by_cases hroom : (stored.length : ℤ) + data.length < bufLen - 1
      · have hleft : http.data.retrieveLen - data.length = http.net.bytes.length := by omega
        simp only [hroom, if_true, not_lt.mpr (Int.natCast_nonneg data.length), if_false,
          Int.toNat_natCast, take_length, hleft]
        by_cases hnil : http.net.bytes = []
        · exact ⟨_, by simp [hnil]; rfl, Or.inl ⟨rfl, by simp [hnil]⟩⟩
        have hpos := length_pos_of_ne_nil hnil
        have hne : ¬ (http.net.bytes.length : ℤ) = 0 := by omega
        simp only [hne, if_false]
        split
        · next hrecv => exact absurd (httpRecv_eq_none hrecv) hnil
        · next got net hrecv =>
            obtain ⟨hbytes, hmax, hless⟩ := httpRecv_some hrecv
            have hstored : (stored ++ data).length = stored.length + data.length :=
              length_append
            -- a chunk is read, so that less is left
            have hlt : net.bytes.length < http.net.bytes.length := hless (by
              rw [hstored]
              simp only [httpclientChunkSize]
              omega)
            have hsum := congrArg List.length hbytes
            rw [length_append] at hsum
            -- the rest is read as if the chunk had come with the header
            obtain ⟨result, hresult, hcases⟩ := @bodyLoop_sync fuel
              ⟨net, { http.data with retrieveLen := (http.net.bytes.length : ℤ) }⟩
              (stored ++ data) got (by simp only; omega) (by simp only; omega) (by omega)
            refine ⟨result, hresult, ?_⟩
            simpa only [hbytes, append_assoc] using hcases
      · simp only [hroom, if_false]
        have hfull : bufLen - 1 - stored.length = data.length := by omega
        refine ⟨_, rfl, .inr ⟨rfl, ?_, ?_, ?_⟩⟩
        · simp only [hfull, take_length, append_assoc]
        · simp only [hfull]
          omega
        · simp only [hfull, take_length, length_append]
          omega

end Body

/-! ## Fetch after fetch -/

variable {result : RecvResult}

/-- A call that has gone well is reported, and counted from what is still to come. -/
theorem ofcFetch_eq {bufLen : ℕ} {http : HttpClient}
    (h : httpclientRecvResponse bufLen http = some result)
    (hret : result.ret = .success ∨ result.ret = .more) :
    ofcFetch bufLen http = some (result.http.data.responseContentLen -
      result.http.data.retrieveLen -
      (http.data.responseContentLen - http.data.retrieveLen), result) := by
  rw [ofcFetch, h, map_some]
  rcases hret with hret | hret <;> simp only [hret]

/-- A call that has gone well, counts what it has stored and has room for it. -/
structure GoodCall (bufLen : ℕ) (http : HttpClient) (result : RecvResult) : Prop where
  recv : httpclientRecvResponse bufLen http = some result
  count : result.http.data.responseContentLen - result.http.data.retrieveLen -
    (http.data.responseContentLen - http.data.retrieveLen) = result.stored.length
  room : result.stored.length < bufLen

theorem GoodCall.done {bufLens : ℕ → ℕ} {http : HttpClient} (h : GoodCall (bufLens 0) http result)
    (hret : result.ret = .success) : Fetches bufLens http result.stored := by
  obtain ⟨ret, stored, after⟩ := result
  obtain rfl : ret = .success := hret
  refine ⟨1, [⟨stored, stored.length, bufLens 0⟩], ?_, by simp, ?_⟩
  · rw [fetchAll, ofcFetch_eq h.recv (Or.inl rfl), h.count]
  · exact forall_mem_singleton.mpr ⟨rfl, h.room⟩

theorem GoodCall.more {bufLens : ℕ → ℕ} {http : HttpClient} {text : Bytes}
    (h : GoodCall (bufLens 0) http result) (hret : result.ret = .more)
    (hrest : Fetches (fun i => bufLens (i + 1)) result.http text) :
    Fetches bufLens http (result.stored ++ text) := by
  obtain ⟨ret, stored, after⟩ := result
  obtain rfl : ret = .more := hret
  obtain ⟨fuel, fetches, hall, rfl, hgood⟩ := hrest
  refine ⟨fuel + 1, ⟨stored, stored.length, bufLens 0⟩ :: fetches, ?_, by simp, ?_⟩
  · rw [fetchAll, ofcFetch_eq h.recv (Or.inr rfl), h.count]
    simp only [hall, map_some]
  · exact forall_mem_cons.mpr ⟨⟨rfl, h.room⟩, hgood⟩

/-- What repeated fetches come to is what the first call comes to. -/
theorem fetchAll_succ {bufLens : ℕ → ℕ} {fuel : ℕ} {http : HttpClient} {fetches : List Fetch}
    (h : fetchAll (fuel + 1) bufLens http = some fetches) :
    ∃ result, httpclientRecvResponse (bufLens 0) http = some result ∧
      ((result.ret = .success ∧ fetches.flatMap (·.stored) = result.stored) ∨
        (result.ret = .more ∧ ∃ rest,
          fetchAll fuel (fun i => bufLens (i + 1)) result.http = some rest ∧
            fetches.flatMap (·.stored) = result.stored ++ rest.flatMap (·.stored))) := by
  rw [fetchAll] at h
  cases hrecv : httpclientRecvResponse (bufLens 0) http with
  | none => simp [ofcFetch, hrecv] at h
  | some result =>
    refine ⟨result, rfl, ?_⟩
    obtain ⟨ret, stored, after⟩ := result
    cases ret with
    | success =>
      rw [ofcFetch_eq hrecv (Or.inl rfl)] at h
      obtain rfl := Option.some.inj h
      exact Or.inl ⟨rfl, by simp⟩
    | more =>
      rw [ofcFetch_eq hrecv (Or.inr rfl)] at h
      obtain ⟨rest, hrest, rfl⟩ := map_eq_some_iff.mp h
      exact Or.inr ⟨rfl, rest, hrest, by simp⟩
    | error code => simp [ofcFetch, hrecv] at h
    | fault => simp [ofcFetch, hrecv] at h

section Later

variable {http : HttpClient}

theorem httpclientRecvResponse_more (hmore : http.data.isMore = true)
    (hcontent : http.data.responseContentLen ≠ -1) (bufLen : ℕ) :
    httpclientRecvResponse bufLen http =
      bodyLoop bufLen (http.net.bytes.length + 2) http [] [] := by
  obtain ⟨net, isMore, retrieveLen, responseContentLen⟩ := http
  obtain rfl : isMore = true := hmore
  rw [httpclientRecvResponse, if_pos rfl, httpGetResponseBody]
  exact if_neg hcontent

theorem httpclientRecvResponse_minus (hmore : http.data.isMore = true)
    (hcontent : http.data.responseContentLen = -1) (bufLen : ℕ) :
    ∃ result, httpclientRecvResponse bufLen http = some result ∧
      result.ret = .error errorHttpConn := by
  rw [httpclientRecvResponse, if_pos hmore, httpGetResponseBody]
  exact ⟨_, if_pos hcontent, rfl⟩

/-- What later calls store is as long as what was still to come. -/
theorem length_fetchAll : ∀ (fuel : ℕ) {bufLens : ℕ → ℕ} {http : HttpClient}
    {fetches : List Fetch}, (∀ i, 2 ≤ bufLens i) → http.data.isMore = true →
      fetchAll fuel bufLens http = some fetches →
      ((fetches.flatMap (·.stored)).length : ℤ) = http.data.retrieveLen
  | 0, _, _, _, _, _, h => by simp [fetchAll] at h
  | fuel + 1, bufLens, http, fetches, hbuf, hmore, h => by
      obtain ⟨result, hrecv, hcases⟩ := fetchAll_succ h
      by_cases hcontent : http.data.responseContentLen = -1
      · obtain ⟨result', hrecv', hret⟩ := httpclientRecvResponse_minus hmore hcontent (bufLens 0)
        obtain rfl := Option.some.inj (hrecv.symm.trans hrecv')
        simp [hret] at hcases
      rw [httpclientRecvResponse_more hmore hcontent] at hrecv
      have hpos : ([] : Bytes).length < bufLens 0 := lt_of_lt_of_le two_pos (hbuf 0)
      rcases hcases with ⟨hret, hstored⟩ | ⟨hret, rest, hrest, hstored⟩
      · obtain ⟨hsum, -, -, hzero, -⟩ := bodyLoop_count _ hrecv hpos (.inl hret)
        rw [hstored]
        have := hzero hret
        simp only [length_nil] at hsum
        omega
      · obtain ⟨hsum, -, -, -, hmore'⟩ := bodyLoop_count _ hrecv hpos (.inr hret)
        have := length_fetchAll fuel (fun i => hbuf (i + 1)) ((hmore' hret).trans hmore) hrest
        rw [hstored, length_append]
        simp only [length_nil] at hsum
        omega

/-- When more is awaited than there are bytes, fetches do not come to an end. -/
theorem fetchAll_short : ∀ (fuel : ℕ) {bufLens : ℕ → ℕ} {http : HttpClient},
    (∀ i, 2 ≤ bufLens i) → http.data.isMore = true →
      (http.net.bytes.length : ℤ) < http.data.retrieveLen → fetchAll fuel bufLens http = none
  | 0, _, _, _, _, _ => rfl
  | fuel + 1, bufLens, http, hbuf, hmore, hshort => by
      rw [eq_none_iff_forall_ne_some]
      intro fetches h
      obtain ⟨result, hrecv, hcases⟩ := fetchAll_succ h
      by_cases hcontent : http.data.responseContentLen = -1
      · obtain ⟨result', hrecv', hret⟩ := httpclientRecvResponse_minus hmore hcontent (bufLens 0)
        obtain rfl := Option.some.inj (hrecv.symm.trans hrecv')
        simp [hret] at hcases
      rw [httpclientRecvResponse_more hmore hcontent] at hrecv
      have hpos : ([] : Bytes).length < bufLens 0 := lt_of_lt_of_le two_pos (hbuf 0)
      rcases bodyLoop_short _ hrecv (by simpa using hshort) with ⟨hret, hshort'⟩ | ⟨code, hret⟩
      · rcases hcases with ⟨hret', -⟩ | ⟨-, rest, hrest, -⟩
        · simp [hret] at hret'
        · have hmore' := (bodyLoop_count _ hrecv hpos (.inr hret)).2.2.2.2 hret
          have hnone := fetchAll_short fuel (fun i => hbuf (i + 1)) (hmore'.trans hmore) hshort'
          simp [hnone] at hrest
      · simp [hret] at hcases

/-- **The later calls.**  When as many bytes are awaited as there are, fetches store them. -/
theorem fetches_sync : ∀ (n : ℕ) {bufLens : ℕ → ℕ} {http : HttpClient},
    (∀ i, 2 ≤ bufLens i) → http.data.isMore = true → http.data.responseContentLen ≠ -1 →
      http.data.retrieveLen = http.net.bytes.length → http.net.bytes.length ≤ n →
      Fetches bufLens http http.net.bytes := by
  intro n
  induction n using Nat.strong_induction_on with
  | _ n ih =>
    intro bufLens http hbuf hmore hcontent hlen hn
    have hpos : ([] : Bytes).length < bufLens 0 := lt_of_lt_of_le two_pos (hbuf 0)
    obtain ⟨result, hloop, hcases⟩ := @bodyLoop_sync (bufLens 0) (http.net.bytes.length + 2)
      http [] [] (by omega) (by simpa using hlen) (by simpa using hpos)
    have hgood (hret : result.ret = .success ∨ result.ret = .more) :
        GoodCall (bufLens 0) http result := by
      obtain ⟨hsum, hcontent', hroom, -⟩ := bodyLoop_count _ hloop hpos hret
      refine ⟨(httpclientRecvResponse_more hmore hcontent _).trans hloop, ?_, hroom⟩
      simp only [length_nil] at hsum
      omega
    rcases hcases with ⟨hret, hstored⟩ | ⟨hret, hstored, hlen', hfull⟩
    · have hall := (hgood (.inl hret)).done hret
      rwa [hstored] at hall
    obtain ⟨-, hcontent', -, -, hmore'⟩ := bodyLoop_count _ hloop hpos (.inr hret)
    simp only [nil_append] at hstored
    have hsum := congrArg List.length hstored
    rw [length_append] at hsum
    have hbuf0 := hbuf 0
    have hrest := ih (n - 1) (by omega) (fun i => hbuf (i + 1)) ((hmore' hret).trans hmore)
      (hcontent'.trans_ne hcontent) hlen' (by omega)
    rw [← hstored]
    exact (hgood (.inr hret)).more hret hrest

end Later

/-! ## The header -/

variable {s : Bytes}

theorem cString_append (hs : 0 ∉ s) (t : Bytes) : cString (s ++ t) = s ++ cString t := by
  refine takeWhile_append_of_pos fun c hc => ?_
  simpa using fun h : c = 0 => hs (h ▸ hc)

theorem cString_eq_self (hs : 0 ∉ s) : cString s = s := by
  simpa [cString] using cString_append hs []

theorem strstr_cString_append {pat : Bytes} (hs : 0 ∉ s) (h : strstr pat s = some pat)
    (t : Bytes) : strstr pat (cString (s ++ t)) = some (pat ++ cString t) := by
  rw [cString_append hs, strstr_append h]

theorem strstr_cString_take {pat : Bytes} (hs : 0 ∉ s) (h : strstr pat s = some pat) {n : ℕ}
    (hn : n < s.length) : strstr pat (cString (s.take n)) = none := by
  have hdrop : s.drop n ≠ [] := by
    rw [ne_eq, drop_eq_nil_iff]
    omega
  rw [cString_eq_self fun hmem => hs (mem_of_mem_take hmem)]
  exact strstr_eq_none_of_append (by rwa [take_append_drop]) hdrop

theorem httpRecv_take {text : Bytes} {n : ℕ} (hn : n < text.length) (reads : ℕ → ℕ)
    (maxLen : ℕ) :
    httpRecv ⟨text.drop n, reads⟩ maxLen = some ((text.drop n).take (min maxLen (max 1 (reads 0))),
        ⟨text.drop (n + min maxLen (max 1 (reads 0))), fun i => reads (i + 1)⟩) := by
  have hdrop : text.drop n ≠ [] := by
    rw [ne_eq, drop_eq_nil_iff]
    omega
  rw [httpRecv, if_neg hdrop]
  simp only [drop_drop]

namespace HttpResponse

variable (resp : HttpResponse)

theorem length_fields_ge : 4 ≤ resp.fields.length :=
  (strstr_spec resp.blank_line).2.length_le

/-- A read for the header gets on, and leaves room for the zero in the buffer. -/
theorem headStep_bounds {n : ℕ} (hn : n + 1 < httpclientReadBufSize) (reads : ℕ → ℕ) :
    1 ≤ min (min httpclientRaedHeadSize (httpclientReadBufSize - n - 1)) (max 1 (reads 0)) ∧
      n + min (min httpclientRaedHeadSize (httpclientReadBufSize - n - 1)) (max 1 (reads 0)) <
        httpclientReadBufSize := by
  simp only [httpclientReadBufSize, httpclientRaedHeadSize] at *
  omega

/-- More fuel than it takes to get to the end of the fields makes no difference. -/
theorem headLength_congr (fields : ℕ) : ∀ (fuel fuel' : ℕ) (reads : ℕ → ℕ) (n : ℕ),
    fields < httpclientReadBufSize → fields ≤ n + fuel → fields ≤ n + fuel' →
      headLength fields fuel reads n = headLength fields fuel' reads n
  | 0, 0, _, _, _, _, _ => rfl
  | 0, fuel' + 1, reads, n, _, hfuel, _ => by
      rw [headLength, headLength, if_pos (by omega)]
  | fuel + 1, 0, reads, n, _, _, hfuel' => by
      rw [headLength, headLength, if_pos (by omega)]
  | fuel + 1, fuel' + 1, reads, n, hfields, hfuel, hfuel' => by
      rw [headLength, headLength]
      by_cases hdone : fields ≤ n
      · rw [if_pos hdone, if_pos hdone]
      · rw [if_neg hdone, if_neg hdone]
        obtain ⟨hpos, hlt⟩ := headStep_bounds (by omega : n + 1 < httpclientReadBufSize) reads
        exact headLength_congr fields fuel fuel' _ _ hfields (by omega) (by omega)

section Header

variable {resp}

theorem headerLoop_done {n : ℕ} (hn : resp.fields.length ≤ n) (fuel : ℕ) (reads : ℕ → ℕ) :
    headerLoop (fuel + 1) ⟨(resp.fields ++ resp.body).drop n, reads⟩
        ((resp.fields ++ resp.body).take n) =
      some (.ok (resp.fields.length - 4, (resp.fields ++ resp.body).take n,
        ⟨(resp.fields ++ resp.body).drop n, reads⟩)) := by
  have htake : (resp.fields ++ resp.body).take n =
      resp.fields ++ resp.body.take (n - resp.fields.length) := by
    rw [take_append, take_of_length_le hn]
  rw [headerLoop, htake, strstr_cString_append resp.fields_text resp.blank_line]
  simp only [cString_append resp.fields_text, length_append]
  have hcrlf : crlf.length = 2 := rfl
  rw [hcrlf, Nat.add_sub_add_right]

theorem headerLoop_next {n : ℕ} (hn : n < resp.fields.length) (fuel : ℕ) (reads : ℕ → ℕ) :
    headerLoop (fuel + 1) ⟨(resp.fields ++ resp.body).drop n, reads⟩
        ((resp.fields ++ resp.body).take n) =
      if httpclientReadBufSize ≤ n + 1 then some (.error errorHttpParse)
      else
        let next := n + min (min httpclientRaedHeadSize (httpclientReadBufSize - n - 1))
          (max 1 (reads 0))
        headerLoop fuel ⟨(resp.fields ++ resp.body).drop next, fun i => reads (i + 1)⟩
          ((resp.fields ++ resp.body).take next) := by
  have htotal : n < (resp.fields ++ resp.body).length := by
    rw [length_append]
    omega
  have htake : (resp.fields ++ resp.body).take n = resp.fields.take n := by
    rw [take_append_of_le_length hn.le]
  have hlength : ((resp.fields ++ resp.body).take n).length = n := by
    rw [length_take]
    omega
  have hnone : strstr (crlf ++ crlf) (cString ((resp.fields ++ resp.body).take n)) = none := by
    rw [htake]
    exact strstr_cString_take resp.fields_text resp.blank_line hn
  rw [headerLoop, hnone, hlength, httpRecv_take htotal]
  simp only [take_add]

/-- **The loop over the header.**  It stops once the fields have been read. -/
theorem headerLoop_fit (hfit : resp.FieldsFit) : ∀ (fuel : ℕ) (reads : ℕ → ℕ) (n : ℕ),
    resp.fields.length ≤ n + fuel →
      ∃ reads' length, headLength resp.fields.length fuel reads n = length ∧
        resp.fields.length ≤ length ∧
        headerLoop (fuel + 1) ⟨(resp.fields ++ resp.body).drop n, reads⟩
            ((resp.fields ++ resp.body).take n) =
          some (.ok (resp.fields.length - 4, (resp.fields ++ resp.body).take length,
            ⟨(resp.fields ++ resp.body).drop length, reads'⟩))
  | 0, reads, n, hfuel => ⟨reads, n, rfl, hfuel, headerLoop_done hfuel 0 reads⟩
  | fuel + 1, reads, n, hfuel => by
      by_cases hdone : resp.fields.length ≤ n
      · exact ⟨reads, n, by rw [headLength, if_pos hdone], hdone, headerLoop_done hdone _ reads⟩
      · have hfit' : resp.fields.length < httpclientReadBufSize := hfit
        obtain ⟨hpos, -⟩ := headStep_bounds (by omega : n + 1 < httpclientReadBufSize) reads
        rw [headerLoop_next (not_le.mp hdone), if_neg (by omega), headLength, if_neg hdone]
        exact headerLoop_fit hfit fuel _ _ (by omega)

theorem headerLoop_full (hfull : ¬ resp.FieldsFit) : ∀ (fuel : ℕ) (reads : ℕ → ℕ) (n : ℕ),
    n < httpclientReadBufSize → httpclientReadBufSize ≤ n + fuel + 1 →
      headerLoop (fuel + 1) ⟨(resp.fields ++ resp.body).drop n, reads⟩
        ((resp.fields ++ resp.body).take n) = some (.error errorHttpParse)
  | fuel, reads, n, hn, hfuel => by
      have hlong : httpclientReadBufSize ≤ resp.fields.length := not_lt.mp hfull
      rw [headerLoop_next (hn.trans_le hlong)]
      by_cases hend : httpclientReadBufSize ≤ n + 1
      · rw [if_pos hend]
      · rw [if_neg hend]
        obtain ⟨hpos, hlt⟩ := headStep_bounds (not_le.mp hend) reads
        obtain ⟨fuel, rfl⟩ : ∃ k, fuel = k + 1 := ⟨fuel - 1, by omega⟩
        exact headerLoop_full hfull fuel _ _ hlt (by omega)

end Header

/-! ## The first call -/

section FirstCall

variable {resp} {reads : ℕ → ℕ}

theorem httpRecv_start (reads : ℕ → ℕ) :
    httpRecv (resp.start reads).net httpclientRaedHeadSize =
      some ((resp.status ++ crlf ++ (resp.fields ++ resp.body)).take (firstRead reads),
        ⟨(resp.status ++ crlf ++ (resp.fields ++ resp.body)).drop (firstRead reads),
          fun i => reads (i + 1)⟩) := by
  have hpos : 0 < (resp.status ++ crlf ++ (resp.fields ++ resp.body)).length := by
    have hfields := resp.length_fields_ge
    simp only [length_append]
    omega
  simpa [start, firstRead] using httpRecv_take hpos reads httpclientRaedHeadSize

theorem status_line_text : 0 ∉ resp.status ++ crlf := by
  simpa [crlf] using resp.status_text

theorem recv_status_missing (h : ¬ resp.StatusRead reads) (bufLen : ℕ) :
    ∃ http, httpclientRecvResponse bufLen (resp.start reads) =
      some ⟨.error errorHttpUnresolvedDns, [], http⟩ := by
  have hlt : firstRead reads < (resp.status ++ crlf).length := by
    rw [length_append]
    exact not_le.mp h
  have hnone := strstr_cString_take status_line_text resp.status_line hlt
  rw [httpclientRecvResponse, if_neg (by simp [start]), httpRecv_start]
  simp only [httpParseResponseHeader, take_append_of_le_length hlt.le, hnone]
  exact ⟨_, rfl⟩

/-- With the status line the first call goes on to the fields. -/
theorem recv_status (h : resp.StatusRead reads) (bufLen : ℕ) :
    httpclientRecvResponse bufLen (resp.start reads) =
      match headerLoop (((resp.fields ++ resp.body).drop
            (firstRead reads - (resp.status.length + 2))).length + 1)
          ⟨(resp.fields ++ resp.body).drop (firstRead reads - (resp.status.length + 2)),
            fun i => reads (i + 1)⟩
          ((resp.fields ++ resp.body).take (firstRead reads - (resp.status.length + 2))) with
      | none => none
      | some (.error code) => some ⟨.error code, [],
          ⟨⟨(resp.fields ++ resp.body).drop (firstRead reads - (resp.status.length + 2)),
            fun i => reads (i + 1)⟩, ⟨true, 0, -1⟩⟩⟩
      | some (.ok (bodyEnd, data, net)) =>
        match contentLengthText data with
        | none => some ⟨.error errorHttp, [], ⟨net, ⟨true, 0, -1⟩⟩⟩
        | some text =>
          httpGetResponseBody bufLen ⟨net, ⟨true, atoi text, atoi text⟩⟩
            (data.drop (bodyEnd + 4)) := by
  have hlength : (resp.status ++ crlf).length = resp.status.length + 2 := length_append
  have hge : (resp.status ++ crlf).length ≤ firstRead reads := hlength.trans_le h
  have htake : (resp.status ++ crlf ++ (resp.fields ++ resp.body)).take (firstRead reads) =
      resp.status ++ crlf ++ (resp.fields ++ resp.body).take
        (firstRead reads - (resp.status.length + 2)) := by
    rw [take_append, take_of_length_le hge, hlength]
  have hdrop : (resp.status ++ crlf ++ (resp.fields ++ resp.body)).drop (firstRead reads) =
      (resp.fields ++ resp.body).drop (firstRead reads - (resp.status.length + 2)) := by
    rw [drop_append, drop_eq_nil_of_le hge, hlength, nil_append]
  have hfound := strstr_cString_append status_line_text resp.status_line
  have hpos (t : Bytes) : (cString (resp.status ++ crlf ++ t)).length -
      (crlf ++ cString t).length + 2 = (resp.status ++ crlf).length := by
    have hcrlf : crlf.length = 2 := rfl
    rw [cString_append status_line_text]
    simp only [length_append, hcrlf]
    omega
  rw [httpclientRecvResponse, if_neg (by simp [start]), httpRecv_start]
  simp only [httpParseResponseHeader, htake, hdrop, hfound, hpos, drop_left]
  rfl

theorem recv_fields_full (h : resp.StatusRead reads) (hfull : ¬ resp.FieldsFit) (bufLen : ℕ) :
    ∃ http, httpclientRecvResponse bufLen (resp.start reads) =
      some ⟨.error errorHttpParse, [], http⟩ := by
  have hlong : httpclientReadBufSize ≤ resp.fields.length := not_lt.mp hfull
  have hfirst : firstRead reads ≤ httpclientRaedHeadSize := min_le_left _ _
  rw [recv_status h, headerLoop_full hfull]
  · exact ⟨_, rfl⟩
  · simp only [httpclientReadBufSize, httpclientRaedHeadSize] at *
    omega
  · rw [length_drop, length_append]
    omega

/-- **The first call.**  Once the header has been read, what has come of the body with it is at
hand, and the length is taken from the header. -/
theorem recv_fits (h : resp.StatusRead reads) (hfit : resp.FieldsFit) (bufLen : ℕ) :
    ∃ net : Net, resp.readAhead reads ++ net.bytes = resp.body ∧
      httpclientRecvResponse bufLen (resp.start reads) = match resp.lengthText reads with
        | none => some ⟨.error errorHttp, [], ⟨net, ⟨true, 0, -1⟩⟩⟩
        | some text => httpGetResponseBody bufLen ⟨net, ⟨true, atoi text, atoi text⟩⟩
            (resp.readAhead reads) := by
  obtain ⟨reads', length, hlength, hge, hloop⟩ := headerLoop_fit hfit
    (((resp.fields ++ resp.body).drop (firstRead reads - (resp.status.length + 2))).length)
    (fun i => reads (i + 1)) (firstRead reads - (resp.status.length + 2)) (by
      rw [length_drop, length_append]
      omega)
  have hahead : resp.readAhead reads = resp.body.take (length - resp.fields.length) := by
    rw [readAhead, ← hlength]
    congr 2
    exact headLength_congr _ _ _ _ _ hfit (by omega) (by
      rw [length_drop, length_append]
      omega)
  have htake : (resp.fields ++ resp.body).take length = resp.fields ++ resp.readAhead reads := by
    rw [take_append, take_of_length_le hge, hahead]
  have hend : resp.fields.length - 4 + 4 = resp.fields.length :=
    Nat.sub_add_cancel resp.length_fields_ge
  refine ⟨⟨(resp.fields ++ resp.body).drop length, reads'⟩, ?_, ?_⟩
  · rw [hahead]
    simp only [drop_append, drop_eq_nil_of_le hge, nil_append,
      take_append_drop]
  · rw [recv_status h, hloop]
    simp only [htake, lengthText, hend, drop_left]

end FirstCall

/-! ## The whole of a response -/

section Whole

variable {resp} {reads bufLens : ℕ → ℕ}

/-- A first call that goes on to the body has read a header that fits, with a length that is not
-1. -/
theorem of_recv_start {bufLen : ℕ} {result : RecvResult}
    (hrecv : httpclientRecvResponse bufLen (resp.start reads) = some result)
    (hret : ∀ code, result.ret ≠ .error code) :
    resp.StatusRead reads ∧ resp.FieldsFit ∧ ∃ text, resp.lengthText reads = some text ∧
      atoi text ≠ -1 ∧ ∃ net : Net, resp.readAhead reads ++ net.bytes = resp.body ∧
        bodyLoop bufLen (net.bytes.length + 2) ⟨net, ⟨true, atoi text, atoi text⟩⟩ []
          (resp.readAhead reads) = some result := by
  have hstatus : resp.StatusRead reads := by
    by_contra hmissing
    obtain ⟨http, herr⟩ := recv_status_missing hmissing bufLen
    obtain rfl := Option.some.inj (hrecv.symm.trans herr)
    exact hret _ rfl
  have hfit : resp.FieldsFit := by
    by_contra hfull
    obtain ⟨http, herr⟩ := recv_fields_full hstatus hfull bufLen
    obtain rfl := Option.some.inj (hrecv.symm.trans herr)
    exact hret _ rfl
  obtain ⟨net, hsplit, hfirst⟩ := recv_fits hstatus hfit bufLen
  rw [hfirst] at hrecv
  cases htext : resp.lengthText reads with
  | none =>
    rw [htext] at hrecv
    obtain rfl := Option.some.inj hrecv
    exact absurd rfl (hret _)
  | some text =>
    rw [htext] at hrecv
    simp only [httpGetResponseBody] at hrecv
    by_cases hminus : atoi text = -1
    · rw [if_pos hminus] at hrecv
      obtain rfl := Option.some.inj hrecv
      exact absurd rfl (hret _)
    · rw [if_neg hminus] at hrecv
      exact ⟨hstatus, hfit, text, rfl, hminus, net, hsplit, hrecv⟩

theorem Reassembles.fits (hbuf : ∀ i, 2 ≤ bufLens i) (h : resp.Reassembles reads bufLens) :
    resp.Fits reads (bufLens 0) := by
  obtain ⟨fuel, fetches, hall, hbody, -⟩ := h
  obtain _ | fuel := fuel
  · simp [fetchAll] at hall
  obtain ⟨result, hrecv, hcases⟩ := fetchAll_succ hall
  have hret : result.ret = .success ∨ result.ret = .more :=
    hcases.imp (fun h => h.1) (fun h => h.1)
  obtain ⟨hstatus, hfit, text, htext, -, net, hsplit, hloop⟩ := of_recv_start hrecv
    (fun code hcode => by simp [hcode] at hret)
  have hpos : ([] : Bytes).length < bufLens 0 := lt_of_lt_of_le two_pos (hbuf 0)
  obtain ⟨hsum, -, -, hzero, hmore⟩ := bodyLoop_count _ hloop hpos hret
  simp only [length_nil, Nat.cast_zero, zero_add] at hsum
  -- all that the calls have stored is as long as the length that was read
  have hlength : atoi text = resp.body.length := by
    rcases hcases with ⟨hret, hstored⟩ | ⟨hret, rest, hrest, hstored⟩
    · have hdone := hzero hret
      rw [← hbody, hstored]
      omega
    · have hlater := length_fetchAll fuel (fun i => hbuf (i + 1)) (hmore hret) hrest
      rw [← hbody, hstored, length_append]
      omega
  refine ⟨hstatus, hfit, by rw [htext, map_some, hlength], ?_⟩
  by_contra hlost
  have hbytes := congrArg List.length hsplit
  rw [length_append] at hbytes
  obtain ⟨hret', hshort⟩ := bodyLoop_lost hloop (hbuf 0) (not_lt.mp hlost)
    (by simp only [hlength]; omega)
  rcases hcases with ⟨hret, -⟩ | ⟨hret, rest, hrest, -⟩
  · simp [hret'] at hret
  · have hnone := fetchAll_short fuel (fun i => hbuf (i + 1)) (hmore hret) hshort
    simp [hnone] at hrest

theorem Fits.reassembles (hbuf : ∀ i, 2 ≤ bufLens i) (h : resp.Fits reads (bufLens 0)) :
    resp.Reassembles reads bufLens := by
  obtain ⟨net, hsplit, hfirst⟩ := recv_fits h.status_read h.fields_fit (bufLens 0)
  obtain ⟨text, htext, hlength⟩ := map_eq_some_iff.mp h.length_read
  have hbytes := congrArg List.length hsplit
  rw [length_append] at hbytes
  have hcontent : atoi text ≠ -1 := by omega
  have hpos : ([] : Bytes).length < bufLens 0 := lt_of_lt_of_le two_pos (hbuf 0)
  obtain ⟨result, hloop, hcases⟩ := @bodyLoop_sync (bufLens 0) (net.bytes.length + 2)
    ⟨net, ⟨true, atoi text, atoi text⟩⟩ [] (resp.readAhead reads) (by simp only; omega)
    (by simp only [hlength]; omega) (by simpa using h.ahead_fits)
  have hgood (hret : result.ret = .success ∨ result.ret = .more) :
      GoodCall (bufLens 0) (resp.start reads) result := by
    obtain ⟨hsum, hcontent', hroom, -⟩ := bodyLoop_count _ hloop hpos hret
    refine ⟨?_, ?_, hroom⟩
    · rw [hfirst, htext]
      simp only [httpGetResponseBody]
      rw [if_neg hcontent]
      exact hloop
    · simp only [start, length_nil] at *
      omega
  rw [Reassembles, ← hsplit]
  rcases hcases with ⟨hret, hstored⟩ | ⟨hret, hstored, hlen, hfull⟩
  · have hall := (hgood (.inl hret)).done hret
    rwa [hstored] at hall
  · obtain ⟨-, hcontent', -, -, hmore⟩ := bodyLoop_count _ hloop hpos (.inr hret)
    have hrest := fetches_sync _ (fun i => hbuf (i + 1)) (hmore hret)
      (hcontent'.trans_ne hcontent) hlen le_rfl
    have hall := (hgood (.inr hret)).more hret hrest
    rwa [hstored] at hall

/-- Whatever the length is read as, the response is rejected when the header does not fit, the length
is -1, or the body ends before the length and before the buffer is full. -/
theorem rejected_iff {bufLen : ℕ} (hbuf : 2 ≤ bufLen) {text : Bytes}
    (htext : resp.lengthText reads = some text) :
    resp.Rejected reads bufLen ↔ ¬ resp.StatusRead reads ∨ ¬ resp.FieldsFit ∨ atoi text = -1 ∨
      (resp.body.length : ℤ) < atoi text ∧ resp.body.length + 1 < bufLen := by
  by_cases hstatus : resp.StatusRead reads
  · by_cases hfit : resp.FieldsFit
    · rw [or_iff_right (not_not.mpr hstatus), or_iff_right (not_not.mpr hfit)]
      obtain ⟨net, hsplit, hfirst⟩ := recv_fits hstatus hfit bufLen
      have hbytes := congrArg List.length hsplit
      rw [length_append] at hbytes
      simp only [htext, httpGetResponseBody] at hfirst
      rw [Rejected, hfirst]
      by_cases hminus : atoi text = -1
      · rw [if_pos hminus]
        exact iff_of_true ⟨_, _, rfl, rfl⟩ (.inl hminus)
      rw [if_neg hminus, or_iff_right hminus]
      by_cases hneg : atoi text < 0
      · -- a negative number of bytes is copied
        have hmin : min ((resp.readAhead reads).length : ℤ) (atoi text) = atoi text :=
          min_eq_right (by omega)
        have hroom : (([] : Bytes).length : ℤ) + atoi text < bufLen - 1 := by
          simp only [length_nil]
          omega
        simp only [bodyLoop, hmin, utilsFillRxBuf, if_pos hroom, if_pos hneg]
        refine iff_of_false ?_ (fun h => by omega)
        rintro ⟨code, result, hresult, hret⟩
        obtain rfl := Option.some.inj hresult
        cases hret
      · obtain ⟨result, hloop, hiff⟩ := @bodyLoop_error_iff bufLen (net.bytes.length + 2)
          ⟨net, ⟨true, atoi text, atoi text⟩⟩ [] (resp.readAhead reads) (by simp only; omega)
          (not_lt.mp hneg) (lt_of_lt_of_le two_pos hbuf)
        simp only [length_nil] at hiff
        have hsplit' : (∃ code result', some result = some result' ∧ result'.ret = .error code) ↔
            ∃ code, result.ret = .error code := by simp
        rw [hloop, hsplit', hiff]
        omega
    · obtain ⟨http, herr⟩ := recv_fields_full hstatus hfit bufLen
      exact iff_of_true ⟨_, _, herr, rfl⟩ (.inr (.inl hfit))
  · obtain ⟨http, herr⟩ := recv_status_missing hstatus bufLen
    exact iff_of_true ⟨_, _, herr, rfl⟩ (.inl hstatus)

end Whole

end HttpResponse

/-- **Reassembly.**  For every response, every split into reads and all sizes of buffers, the body
is put together exactly when the header and what comes with it fit; and whatever the header gives as
the length (what is read is the text behind the first `Content-Length` and two more characters, 0 if
it is no number), the response is rejected exactly when the header cannot be read, the length is read
as -1, or the body ends before that length and before the first buffer is full. -/
theorem http_body_reassembly (resp : HttpResponse) (reads bufLens : ℕ → ℕ)
    (hbuf : ∀ i, 2 ≤ bufLens i) :
    (resp.Reassembles reads bufLens ↔ resp.Fits reads (bufLens 0)) ∧
      ∀ text, resp.lengthText reads = some text →
        (resp.Rejected reads (bufLens 0) ↔
          ¬ resp.StatusRead reads ∨ ¬ resp.FieldsFit ∨ atoi text = -1 ∨
            (resp.body.length : ℤ) < atoi text ∧ resp.body.length + 1 < bufLens 0) :=
  ⟨⟨fun h => h.fits hbuf, fun h => h.reassembles hbuf⟩,
    fun _ htext => HttpResponse.rejected_iff (hbuf 0) htext⟩

/-- The status line `200 OK`, with a text behind `Content-Length` and a body. -/
def okResponse (length body : Bytes)
    (hblank : strstr (crlf ++ crlf) (contentLengthName ++ length ++ crlf ++ crlf) =
      some (crlf ++ crlf)) (htext : 0 ∉ contentLengthName ++ length ++ crlf ++ crlf) :
    HttpResponse :=
  ⟨[72, 84, 84, 80, 47, 49, 46, 49, 32, 50, 48, 48, 32, 79, 75],
    contentLengthName ++ length ++ crlf ++ crlf, body, by decide, by decide, hblank, htext⟩

/-- The body `hello`, of which one byte comes with the header, is fetched with three buffers of 3
bytes; and a length of -5 without a blank is read as 5, so that an empty body is rejected. -/
theorem http_body_reassembly_hello :
    (okResponse [58, 32, 53] [104, 101, 108, 108, 111] (by decide) (by decide)).Reassembles
        (fun i => if i = 1 then 7 else 100) (fun _ => 3) ∧
      (okResponse [58, 45, 53] [] (by decide) (by decide)).Rejected (fun _ => 100) 3 := by
  refine ⟨(http_body_reassembly _ _ (fun _ => 3) fun _ => by decide).1.mpr
      ⟨by decide, by decide, by decide, by decide⟩,
    ((http_body_reassembly _ _ (fun _ => 3) fun _ => by decide).2 ([53] ++ crlf ++ crlf) ?_).mpr ?_⟩
  · decide
  · exact .inr (.inr (.inr ⟨by decide, by decide⟩))

/-- With all of it the body comes with the header, and buffers of 3 bytes lose what does not fit;
and a length of -5 is not rejected: a copy of a negative number of bytes follows, or, without the
blank in front of it, 5 bytes of a body are fetched. -/
theorem http_body_reassembly_broken :
    ¬ (okResponse [58, 32, 53] [104, 101, 108, 108, 111] (by decide) (by decide)).Reassembles
        (fun _ => 100) (fun _ => 3) ∧
      ¬ (okResponse [58, 32, 45, 53] [] (by decide) (by decide)).Rejected (fun _ => 100) 3 ∧
      ¬ (okResponse [58, 45, 53] [104, 101, 108, 108, 111] (by decide) (by decide)).Rejected
        (fun _ => 100) 8 := by
  refine ⟨fun h => ?_, ?_, ?_⟩
  · exact absurd (h.fits fun _ => by decide).ahead_fits (by decide)
  · rintro ⟨code, result, hrecv, hret⟩
    have hfault : (httpclientRecvResponse 3 ((okResponse [58, 32, 45, 53] [] (by decide)
        (by decide)).start fun _ => 100)).map (·.ret) = some .fault := by decide
    rw [hrecv, map_some, hret] at hfault
    cases hfault
  · rintro ⟨code, result, hrecv, hret⟩
    have hsuccess : (httpclientRecvResponse 8 ((okResponse [58, 45, 53] [104, 101, 108, 108, 111]
        (by decide) (by decide)).start fun _ => 100)).map (·.ret) = some .success := by decide
    rw [hrecv, map_some, hret] at hsuccess
    cases hsuccess

end Iotkit.Http
