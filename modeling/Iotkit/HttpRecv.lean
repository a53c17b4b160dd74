/-
# Receiving an HTTP response (`infra_httpc.c`, `ota_fetch.c`)

The first call of `httpclient_recv_response` reads the header, 32 bytes at a time, and what of the
body has come with it goes on to the buffer of the caller.  `ofc_Fetch` reports how far the number
of bytes that are still to come has gone down.  The transport returns at least one byte as long as
there are any, and an error after them.
-/
import Iotkit.LibC

namespace Iotkit.Http

open LibC

/-! ## The transport -/

/-- The bytes that the server has sent, and how many of them each read finds. -/
structure Net where
  bytes : Bytes
  reads : ℕ → ℕ

/-- `_http_recv`, which fails at the end of the bytes. -/
def httpRecv (net : Net) (maxLen : ℕ) : Option (Bytes × Net) :=
  if net.bytes = [] then none
  else
    let n := min maxLen (max 1 (net.reads 0))
    some (net.bytes.take n, ⟨net.bytes.drop n, fun i => net.reads (i + 1)⟩)

/-! ## The client -/

abbrev httpclientReadBufSize : ℕ := 1024

abbrev httpclientRaedHeadSize : ℕ := 32

abbrev httpclientChunkSize : ℕ := 1024

abbrev errorHttpConn : ℤ := -8
abbrev errorHttpParse : ℤ := -7
abbrev errorHttpUnresolvedDns : ℤ := -6
abbrev errorHttp : ℤ := -4

/-- The fields of an `httpclient_data_t` that reception reads.  `is_chunked` is never set. -/
structure HttpData where
  isMore : Bool
  retrieveLen : ℤ
  responseContentLen : ℤ

/-- A client that is connected, with its data. -/
structure HttpClient where
  net : Net
  data : HttpData

/-- What a call comes to: `SUCCESS_RETURN`, `HTTP_RETRIEVE_MORE_DATA`, an error, or a copy of a
negative number of bytes. -/
inductive HttpRet where
  | success
  | more
  | error (code : ℤ)
  | fault
  deriving DecidableEq

/-- What a call returns and has stored in the buffer of the caller, and the client after it. -/
structure RecvResult where
  ret : HttpRet
  stored : Bytes
  http : HttpClient

def crlf : Bytes := [13, 10]

/-- The text `Content-Length`. -/
def contentLengthName : Bytes :=
  [67, 111, 110, 116, 101, 110, 116, 45, 76, 101, 110, 103, 116, 104]

/-- The string in a buffer. -/
def cString (data : Bytes) : Bytes := data.takeWhile (· ≠ 0)

/-- `_utils_fill_rx_buf`, for a buffer that holds `stored` so far: whether it is full, what it
holds then, and the data.  A negative `len` is a copy that goes wrong. -/
def utilsFillRxBuf (bufLen : ℕ) (stored data : Bytes) (len : ℤ) (d : HttpData) :
    Option (Bool × Bytes × HttpData) :=
  if stored.length + len < (bufLen : ℤ) - 1 then
    if len < 0 then none
    else
      some (false, stored ++ data.take len.toNat, { d with retrieveLen := d.retrieveLen - len })
  else
    let room := bufLen - 1 - stored.length
    some (true, stored ++ data.take room, { d with retrieveLen := d.retrieveLen - room })

/-- The loop of `_http_get_response_body`. -/
def bodyLoop (bufLen : ℕ) : ℕ → HttpClient → Bytes → Bytes → Option RecvResult
  | 0, _, _, _ => none
  | fuel + 1, http, stored, data =>
    match utilsFillRxBuf bufLen stored data (min data.length http.data.retrieveLen) http.data with
    | none => some ⟨.fault, stored, http⟩
    | some (true, stored, d) => some ⟨.more, stored, ⟨http.net, d⟩⟩
    | some (false, stored, d) =>
      if d.retrieveLen = 0 then
        some ⟨.success, stored, ⟨http.net, { d with isMore := false }⟩⟩
      else
        let maxLen := min (min (httpclientChunkSize - 1) (bufLen - 1 - stored.length))
          d.retrieveLen.toNat
        match httpRecv http.net maxLen with
        | none => some ⟨.error errorHttpConn, stored, ⟨http.net, d⟩⟩
        | some (got, net) => bodyLoop bufLen fuel ⟨net, d⟩ stored got

def httpGetResponseBody (bufLen : ℕ) (http : HttpClient) (data : Bytes) : Option RecvResult :=
  let d := { http.data with isMore := true }
  if d.responseContentLen = -1 then some ⟨.error errorHttpConn, [], ⟨http.net, d⟩⟩
  else bodyLoop bufLen (http.net.bytes.length + 2) ⟨http.net, d⟩ [] data

/-- The loop of `_http_parse_response_header` that reads up to the blank line: the place of the
line, what has been read, and the transport. -/
def headerLoop : ℕ → Net → Bytes → Option (Except ℤ (ℕ × Bytes × Net))
  | 0, _, _ => none
  | fuel + 1, net, data =>
    match strstr (crlf ++ crlf) (cString data) with
    | some rest => some (.ok ((cString data).length - rest.length, data, net))
    | none =>
      if httpclientReadBufSize ≤ data.length + 1 then some (.error errorHttpParse)
      else
        match httpRecv net
          (min httpclientRaedHeadSize (httpclientReadBufSize - data.length - 1)) with
        | none => some (.error errorHttpConn)
        | some (got, net) => headerLoop fuel net (data ++ got)

/-- The text that is read as the length of the body. -/
def contentLengthText (data : Bytes) : Option Bytes :=
  (strstr contentLengthName (cString data)).map (·.drop (contentLengthName.length + 2))

def httpParseResponseHeader (bufLen : ℕ) (http : HttpClient) (data : Bytes) : Option RecvResult :=
  let d := { http.data with responseContentLen := -1 }
  match strstr crlf (cString data) with
  | none => some ⟨.error errorHttpUnresolvedDns, [], ⟨http.net, d⟩⟩
  | some rest =>
    let crlfPos := (cString data).length - rest.length
    match headerLoop (http.net.bytes.length + 1) http.net (data.drop (crlfPos + 2)) with
    | none => none
    | some (.error code) => some ⟨.error code, [], ⟨http.net, d⟩⟩
    | some (.ok (bodyEnd, data, net)) =>
      match contentLengthText data with
      | none => some ⟨.error errorHttp, [], ⟨net, d⟩⟩
      | some text =>
        httpGetResponseBody bufLen
          ⟨net, { d with responseContentLen := atoi text, retrieveLen := atoi text }⟩
          (data.drop (bodyEnd + 4))

/-- `httpclient_recv_response`, on a connection that is there. -/
def httpclientRecvResponse (bufLen : ℕ) (http : HttpClient) : Option RecvResult :=
  if http.data.isMore then httpGetResponseBody bufLen http []
  else
    let d := { http.data with isMore := true }
    match httpRecv http.net httpclientRaedHeadSize with
    | none => some ⟨.error errorHttpConn, [], ⟨http.net, d⟩⟩
    | some (data, net) => httpParseResponseHeader bufLen ⟨net, d⟩ data

/-- `ofc_Fetch`: the value that it returns, and what the call comes to. -/
def ofcFetch (bufLen : ℕ) (http : HttpClient) : Option (ℤ × RecvResult) :=
  let diff := http.data.responseContentLen - http.data.retrieveLen
  (httpclientRecvResponse bufLen http).map fun result =>
    match result.ret with
    | .error _ => (-1, result)
    | _ => (result.http.data.responseContentLen - result.http.data.retrieveLen - diff, result)

/-! ## The whole of a response -/

/-- A fetch that has gone well: what it has stored, what it has reported, and the size of its
buffer. -/
structure Fetch where
  stored : Bytes
  count : ℤ
  bufLen : ℕ

/-- Calls with buffers of the given sizes, until one does not report more data; nothing when one
fails. -/
def fetchAll : ℕ → (ℕ → ℕ) → HttpClient → Option (List Fetch)
  | 0, _, _ => none
  | fuel + 1, bufLens, http =>
    match ofcFetch (bufLens 0) http with
    | some (count, ⟨.more, stored, http⟩) =>
      (fetchAll fuel (fun i => bufLens (i + 1)) http).map (⟨stored, count, bufLens 0⟩ :: ·)
    | some (count, ⟨.success, stored, _⟩) => some [⟨stored, count, bufLens 0⟩]
    | _ => none

end Iotkit.Http
