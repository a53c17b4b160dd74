/-
# Paths in options

`CoAPServerPath_2_option` (`CoAPServer.c`) splits a path into `Uri-Path` options, and
`CoAPRequestMessage_handle` (`CoAPMessage.c`) joins the options of a request to a path again.
The first tells nobody when there is no room for an option, the second leaves out what does not
fit, and takes one byte too many for what fits.
-/
import Iotkit.CoapBuilder
import Iotkit.CoapResource
import Iotkit.CoapSendList

namespace Iotkit.Coap

open List hiding Vector

/-! ## Splitting -/

/-- One call of `CoAPStrOption_add` for a segment. -/
def addSegment (malloc : Bool) (message : CoapBuilder) (path : Bytes) : CoapBuilder :=
  (coapStrOptionAdd malloc message coapOptionUriPath (memOf path fun _ => 0)
    (UInt16.ofNat path.length)).2

/-- The loop of `CoAPServerPath_2_option`: `segment` is what stands between `pstr` and `ptr`, and
`malloc` tells for each call whether there is memory for its option. -/
def pathLoop (malloc : ℕ → Bool) : ℕ → Bytes → Bytes → CoapBuilder → CoapBuilder
  | _, _, [], message => message
  | calls, segment, c :: rest, message =>
    if c = 0x2f then
      if segment ≠ [] then
        pathLoop malloc (calls + 1) [] rest (addSegment (malloc calls) message segment)
      else pathLoop malloc calls [] rest message
    else
      let segment := segment ++ [c]
      if rest = [] then addSegment (malloc calls) message segment
      else pathLoop malloc calls segment rest message

def coapServerPath2Option (malloc : ℕ → Bool) (uri : CString) (message : CoapBuilder) :
    ℤ × CoapBuilder :=
  if coapMsgMaxPathLen ≤ uri.strlen then (coapErrorInvalidLength, message)
  else (coapSuccess, pathLoop malloc 0 [] uri.bytes message)

/-! ## Joining -/

/-- The buffer of `CoAPRequestMessage_handle`, which is cleared first. -/
def requestBuffer (options : List (CoapMsgOption Memory)) : Bytes :=
  let path := coapRequestPath [] options
  path ++ List.replicate (coapMsgMaxPathLen - path.length) 0

/-- The path in the buffer, as a C string that goes on into what lies behind it on the stack. -/
def requestString (stack : Bytes) (options : List (CoapMsgOption Memory)) : Bytes :=
  cChars (requestBuffer options ++ stack)

def requestedPath (options : List (CoapMsgOption Memory)) : Bytes :=
  (options.filter fun o => o.num = coapOptionUriPath).flatMap fun o => 0x2f :: o.bytes

/-- The path that is joined ends within its buffer and is the path `path`. -/
structure PathRebuilt (stack : Bytes) (options : List (CoapMsgOption Memory))
    (path : Bytes) : Prop where
  terminated : 0 ∈ requestBuffer options
  equal : requestString stack options = path

/-- The rest of `CoAPRequestMessage_handle`, for a path. -/
def handleRequestPath {H U C : Type} (md5 : Bytes → Vector UInt8 16) (env : CoapEnv)
    (ctx : CoapIntContext H U C) (remote : NetworkAddr) (message : CoapMessage Memory)
    (path : Bytes) : CoapIntContext H U C :=
  match coapResourceByPathGet md5 ctx path with
  | none => (coapErrRespMessageSend env ctx remote message coapMsgCode404NotFound).2
  | some resource =>
    match resource.callback with
    | none => (coapErrRespMessageSend env ctx remote message coapMsgCode405MethodNotAllowed).2
    | some callback =>
      if 0 < resource.permission.toNat &&& 1 <<< (message.header.code.toNat - 1) then
        let ctx :=
          if message.header.type = coapMessageTypeCon then
            (coapAckMessageSend env ctx remote message.header.msgid).2
          else ctx
        ctx.emit (.callback callback path remote message)
      else (coapErrRespMessageSend env ctx remote message coapMsgCode405MethodNotAllowed).2

section Joining

variable {options : List (CoapMsgOption Memory)}

theorem length_strncpyBytes (val : Memory) (n : ℕ) : (strncpyBytes val n).length = n := by
  have hle : (cChars (memSlice val 0 n)).length ≤ n := by
    refine le_trans (takeWhile_sublist _).length_le ?_
    rw [length_memSlice]
  simp only [strncpyBytes, length_append, length_replicate]
  omega

theorem strncpyBytes_eq_self {o : CoapMsgOption Memory} (h : 0 ∉ o.bytes) :
    strncpyBytes o.val o.len.toNat = o.bytes := by
  have hchars : cChars (memSlice o.val 0 o.len.toNat) = o.bytes := cChars_eq_self h
  simp only [strncpyBytes, hchars]
  simp [CoapMsgOption.bytes]

variable (options : List (CoapMsgOption Memory))

theorem length_coapRequestPath_le :
    ∀ path : Bytes, path.length ≤ coapMsgMaxPathLen →
      (coapRequestPath path options).length ≤ coapMsgMaxPathLen := by
  induction options with
  | nil => exact fun path h => h
  | cons o options ih =>
    intro path h
    have hmax : coapMsgMaxPathLen = 128 := rfl
    rw [coapRequestPath]
    split_ifs with hfits
    · apply ih
      rw [length_append, length_cons, length_strncpyBytes]
      omega
    · exact ih path h

theorem length_requestBuffer :
    (requestBuffer options).length = coapMsgMaxPathLen := by
  have hle := length_coapRequestPath_le options [] (Nat.zero_le _)
  simp only [requestBuffer, length_append, length_replicate]
  omega

theorem requestedPath_cons (o : CoapMsgOption Memory)
    (options : List (CoapMsgOption Memory)) :
    requestedPath (o :: options)
      = (if o.num = coapOptionUriPath then 0x2f :: o.bytes else []) ++ requestedPath options := by
  unfold requestedPath
  rw [filter_cons]
  by_cases hnum : o.num = coapOptionUriPath
  · simp [hnum]
  · simp [hnum]

theorem coapRequestPath_eq :
    ∀ path : Bytes, path.length + (requestedPath options).length < coapMsgMaxPathLen →
      0 ∉ requestedPath options → coapRequestPath path options = path ++ requestedPath options := by
  induction options with
  | nil => exact fun path _ _ => (append_nil path).symm
  | cons o options ih =>
    intro path hfits hnul
    rw [requestedPath_cons, mem_append, not_or] at hnul
    rw [requestedPath_cons, length_append] at hfits
    rw [coapRequestPath, requestedPath_cons]
    by_cases hnum : o.num = coapOptionUriPath
    · rw [if_pos hnum] at hnul hfits ⊢
      have hlen : o.bytes.length = o.len.toNat := length_memSlice _ _ _
      rw [length_cons, hlen] at hfits
      have hbytes : 0 ∉ o.bytes := fun h => hnul.1 (mem_cons_of_mem _ h)
      rw [if_pos ⟨hnum, by omega⟩, strncpyBytes_eq_self hbytes, ih _ ?_ hnul.2]
      · simp
      · rw [length_append, length_cons, hlen]
        omega
    · rw [if_neg hnum, length_nil, Nat.zero_add] at hfits
      rw [if_neg hnum, if_neg fun h => hnum h.1, ih path hfits hnul.2]
      rfl

/-- **Joining.**  The requested path is joined exactly if it fits with its terminator and is a
C string. -/
theorem pathRebuilt_iff (stack : Bytes) (options : List (CoapMsgOption Memory)) :
    PathRebuilt stack options (requestedPath options) ↔
      (requestedPath options).length < coapMsgMaxPathLen ∧ 0 ∉ requestedPath options := by
  constructor
  · rintro ⟨hterminated, hequal⟩
    obtain ⟨hchars, hlt⟩ := cChars_append hterminated stack
    rw [requestString, hchars] at hequal
    rw [hequal, length_requestBuffer] at hlt
    exact ⟨hlt, hequal ▸ zero_notMem_cChars _⟩
  · rintro ⟨hfits, hnul⟩
    have hpath : coapRequestPath [] options = requestedPath options :=
      coapRequestPath_eq options [] (by rw [length_nil]; omega) hnul
    have hbuffer : requestBuffer options
        = requestedPath options ++ 0 :: List.replicate (127 - (requestedPath options).length) 0 := by
      have hmax : coapMsgMaxPathLen = 128 := rfl
      have hroom : coapMsgMaxPathLen - (requestedPath options).length
          = (127 - (requestedPath options).length) + 1 := by omega
      rw [requestBuffer, hpath, hroom]
      rfl
    have hterminated : 0 ∈ requestBuffer options := by
      rw [hbuffer]
      exact mem_append_right _ mem_cons_self
    refine ⟨hterminated, ?_⟩
    rw [requestString, (cChars_append hterminated stack).1, hbuffer, cChars,
      takeWhile_append_of_pos fun b hb => by simpa using fun hzero : b = 0 => hnul (hzero ▸ hb)]
    simp

end Joining

/-! ## Requests -/

section Requests

variable {H U C : Type}

/-- The paths that callbacks of resources were called with. -/
def CoapIntContext.callbackPaths (ctx : CoapIntContext H U C) : List (C × Bytes) :=
  ctx.trace.filterMap fun effect =>
    match effect with
    | .callback callback path _ _ => some (callback, path)
    | _ => none

theorem callbackPaths_coapMessageSend (env : CoapEnv) (ctx : CoapIntContext H U C)
    (remote : NetworkAddr) (message : CoapSendMessage H U) :
    (coapMessageSend env ctx remote message).2.callbackPaths = ctx.callbackPaths := by
  have hwritten : ∀ bytes, (ctx.written remote message.toCoapMessage bytes).callbackPaths
      = ctx.callbackPaths := by
    intro bytes
    have htrace := (coapObsClientDelete_frame ctx message.toCoapMessage).2.2
    simp [CoapIntContext.callbackPaths, CoapIntContext.written, CoapIntContext.writeNew, htrace]
  rcases coapMessageSend_cases env ctx remote message with
    ⟨-, hsame⟩ | ⟨bytes, hctx | ⟨-, -, -, hctx⟩⟩
  · rw [hsame]
  · rw [hctx, hwritten]
  · rw [hctx]
    exact hwritten bytes

theorem callbackPaths_coapErrRespMessageSend (env : CoapEnv) (ctx : CoapIntContext H U C)
    (remote : NetworkAddr) (message : CoapMessage Memory) (errCode : UInt8) :
    (coapErrRespMessageSend env ctx remote message errCode).2.callbackPaths = ctx.callbackPaths :=
  callbackPaths_coapMessageSend env ctx remote _

/-- The path of a request is the one that is asked for, or no callback is called. -/
def PathServed (md5 : Bytes → Vector UInt8 16) (env : CoapEnv) (ctx : CoapIntContext H U C)
    (remote : NetworkAddr) (stack : Bytes) (message : CoapMessage Memory) : Prop :=
  PathRebuilt stack message.options (requestedPath message.options) ∨
    (handleRequestPath md5 env ctx remote message (requestString stack message.options)).callbackPaths
      = ctx.callbackPaths

/-- A context with one resource, that is registered for a path with all permissions. -/
def contextFor (md5 : Bytes → Vector UInt8 16) (callback : C) (path : Bytes) :
    CoapIntContext H U C where
  sendlist := CoapList.init _ 8
  obsserver := CoapList.init _ 8
  obsclient := CoapList.init _ 8
  resource := (CoapList.init _ 8).addTail
    ⟨0, 0xFFFF, some callback, coapCtAppJson, 60, coapPathMD5Sum md5 path 5, [], .normal⟩
  sends := 0
  trace := []

/-- A permission has a bit for the codes up to 16, and none behind. -/
theorem permission_and_eq_zero (permission : UInt16) {n : ℕ} (hn : 16 ≤ n) :
    permission.toNat &&& 1 <<< n = 0 := by
  have hlt : permission.toNat < 2 ^ n :=
    Nat.lt_of_lt_of_le permission.toNat_lt (Nat.pow_le_pow_right (by decide) hn)
  rw [Nat.one_shiftLeft, Nat.and_two_pow, Nat.testBit_lt_two_pow hlt]
  simp

theorem all_permissions_and_pos {n : ℕ} (hn : n < 16) : 0 < (0xFFFF : UInt16).toNat &&& 1 <<< n := by
  interval_cases n <;> decide

/-- What a request with this code calls of a resource. -/
def CoapResource.calls (resource : CoapResource C) (code : UInt8) (path : Bytes) :
    List (C × Bytes) :=
  if 0 < resource.permission.toNat &&& 1 <<< (code.toNat - 1) then
    resource.callback.toList.map (·, path)
  else []

theorem callbackPaths_of_get {md5 : Bytes → Vector UInt8 16} {ctx : CoapIntContext H U C}
    {path : Bytes} {resource : CoapResource C}
    (hget : coapResourceByPathGet md5 ctx path = some resource) (env : CoapEnv)
    (remote : NetworkAddr) (message : CoapMessage Memory) :
    (handleRequestPath md5 env ctx remote message path).callbackPaths =
      ctx.callbackPaths ++ resource.calls message.header.code path := by
  have hemit : ∀ (ctx : CoapIntContext H U C) (callback : C),
      (ctx.emit (.callback callback path remote message)).callbackPaths =
        ctx.callbackPaths ++ [(callback, path)] := by
    intro ctx callback
    simp [CoapIntContext.callbackPaths, CoapIntContext.emit]
  simp only [handleRequestPath, hget, CoapResource.calls]
  cases resource.callback with
  | none => simp [callbackPaths_coapErrRespMessageSend]
  | some callback =>
    dsimp only
    split_ifs
    · rw [hemit, coapAckMessageSend, callbackPaths_coapMessageSend]
      rfl
    · exact hemit ctx callback
    · rw [callbackPaths_coapErrRespMessageSend, append_nil]

/-- In its context, the callback is called for a path. -/
theorem callbackPaths_contextFor (md5 : Bytes → Vector UInt8 16) (env : CoapEnv)
    (callback : C) (remote : NetworkAddr) {message : CoapMessage Memory}
    (hcode : message.header.code.toNat - 1 < 16) (path : Bytes) :
    (handleRequestPath md5 env (contextFor (H := H) (U := U) md5 callback path) remote message
      path).callbackPaths = [(callback, path)] := by
  have hget : coapResourceByPathGet md5 (contextFor (H := H) (U := U) md5 callback path) path
      = some ⟨0, 0xFFFF, some callback, coapCtAppJson, 60, coapPathMD5Sum md5 path 5, [], .normal⟩ := by
    simp [coapResourceByPathGet, contextFor, CoapList.addTail, CoapList.init]
  rw [callbackPaths_of_get hget, CoapResource.calls, if_pos (all_permissions_and_pos hcode)]
  rfl

theorem pathServed_iff [Nonempty C] (message : CoapMessage Memory)
    (hreq : coapReqMsg message.header) :
    (∀ md5 env (ctx : CoapIntContext H U C) remote stack,
        PathServed md5 env ctx remote stack message) ↔
      (requestedPath message.options).length < coapMsgMaxPathLen ∧
          0 ∉ requestedPath message.options ∨
        16 < message.header.code := by
  have hpos : 1 ≤ message.header.code.toNat := UInt8.le_iff_toNat_le.mp hreq.1
  constructor
  · intro h
    by_contra hcond
    rw [not_or] at hcond
    have hcode : message.header.code.toNat ≤ 16 :=
      Nat.le_of_not_lt fun hlt => hcond.2 (UInt8.lt_iff_toNat_lt.mpr hlt)
    -- a resource is registered under just the path that is made of the request
    obtain ⟨callback⟩ := ‹Nonempty C›
    let md5 : Bytes → Vector UInt8 16 := fun _ => Vector.replicate 16 1
    have hserved := h md5 ⟨true, true, true, 0, 0⟩
      (contextFor md5 callback (requestString [] message.options)) ⟨Vector.replicate 16 0, 0⟩ []
    rcases hserved with hrebuilt | hnone
    · exact hcond.1 ((pathRebuilt_iff [] message.options).mp hrebuilt)
    · rw [callbackPaths_contextFor md5 _ callback _ (by omega)] at hnone
      cases hnone
  · rintro (hpath | hcode) md5 env ctx remote stack
    · exact .inl ((pathRebuilt_iff stack message.options).mpr hpath)
    · right
      have hlt : 16 < message.header.code.toNat := UInt8.lt_iff_toNat_lt.mp hcode
      cases hget : coapResourceByPathGet md5 ctx (requestString stack message.options) with
      | none =>
        simp only [handleRequestPath, hget]
        exact callbackPaths_coapErrRespMessageSend env ctx remote message _
      | some resource =>
        rw [callbackPaths_of_get hget, CoapResource.calls, permission_and_eq_zero _
          (show 16 ≤ message.header.code.toNat - 1 by omega), if_neg (lt_irrefl 0),
          append_nil]

end Requests

/-! ## From one side to the other -/

/-- Segments, each behind a slash. -/
def joinSegments (segs : List Bytes) : Bytes := segs.flatMap fun s => 0x2f :: s

/-- The segments of a path: there is one, none is empty, and none has a slash or a NUL. -/
structure PathSegments (segs : List Bytes) : Prop where
  ne_nil : segs ≠ []
  segment_ne_nil : ∀ s ∈ segs, s ≠ []
  slash_notMem : ∀ s ∈ segs, 0x2f ∉ s
  nul_notMem : ∀ s ∈ segs, 0 ∉ s

/-- A path of these segments, with a slash before the first one or without. -/
def segmentsPath (lead : Bool) (segs : List Bytes) : Bytes :=
  if lead then joinSegments segs else (joinSegments segs).tail

/-- The calls for the segments of a path. -/
def segmentOps (malloc : ℕ → Bool) : ℕ → List Bytes → List BuildOp
  | _, [] => []
  | calls, s :: segs =>
    .strOption (malloc calls) coapOptionUriPath (memOf s fun _ => 0) (UInt16.ofNat s.length)
      :: segmentOps malloc (calls + 1) segs

/-- The segments that get an option, with room for `room` more of them. -/
def addedSegments (malloc : ℕ → Bool) : ℕ → ℕ → List Bytes → List Bytes
  | _, _, [] => []
  | room, calls, s :: segs =>
    if 0 < room ∧ malloc calls then s :: addedSegments malloc (room - 1) (calls + 1) segs
    else addedSegments malloc room (calls + 1) segs

section Split

variable (malloc : ℕ → Bool)

theorem pathLoop_append_slash (calls : ℕ) (rest : Bytes) (message : CoapBuilder)
    (s : Bytes) : ∀ segment : Bytes, 0x2f ∉ s → segment ++ s ≠ [] →
      pathLoop malloc calls segment (s ++ 0x2f :: rest) message
        = pathLoop malloc (calls + 1) [] rest
            (addSegment (malloc calls) message (segment ++ s)) := by
  induction s with
  | nil =>
    intro segment _ hne
    rw [append_nil] at hne ⊢
    rw [nil_append, pathLoop, if_pos rfl, if_pos hne]
  | cons c s ih =>
    intro segment hslash _
    have hc : c ≠ 0x2f := fun h => hslash (h ▸ mem_cons_self)
    rw [cons_append, pathLoop, if_neg hc, if_neg (by simp),
      ih (segment ++ [c]) (fun h => hslash (mem_cons_of_mem _ h)) (by simp)]
    simp

theorem pathLoop_last (calls : ℕ) (message : CoapBuilder) (s : Bytes) :
    ∀ segment : Bytes, 0x2f ∉ s → s ≠ [] →
      pathLoop malloc calls segment s message
        = addSegment (malloc calls) message (segment ++ s) := by
  induction s with
  | nil => exact fun _ _ h => absurd rfl h
  | cons c s ih =>
    intro segment hslash _
    have hc : c ≠ 0x2f := fun h => hslash (h ▸ mem_cons_self)
    simp only [pathLoop, if_neg hc]
    by_cases hs : s = []
    · rw [if_pos hs, hs]
    · rw [if_neg hs, ih (segment ++ [c]) (fun h => hslash (mem_cons_of_mem _ h)) hs]
      simp

theorem pathLoop_segments (null : Memory) (segs : List Bytes) :
    ∀ (calls : ℕ) (b : Building), (∀ s ∈ segs, s ≠ []) → (∀ s ∈ segs, 0x2f ∉ s) →
      pathLoop malloc calls [] (joinSegments segs).tail b.message
        = ((segmentOps malloc calls segs).foldl (buildStep null) b).message := by
  induction segs with
  | nil => intro calls b _ _; rfl
  | cons s segs ih =>
    intro calls b hne hslash
    have hs := hne s mem_cons_self
    have hs' := hslash s mem_cons_self
    have hstep : (buildStep null b (.strOption (malloc calls) coapOptionUriPath
        (memOf s fun _ => 0) (UInt16.ofNat s.length))).message
          = addSegment (malloc calls) b.message s := rfl
    show pathLoop malloc calls [] (s ++ joinSegments segs) b.message
      = ((segmentOps malloc (calls + 1) segs).foldl (buildStep null) (buildStep null b _)).message
    rw [← ih _ _ (fun t ht => hne t (mem_cons_of_mem _ ht))
      fun t ht => hslash t (mem_cons_of_mem _ ht), hstep]
    cases segs with
    | nil =>
      show pathLoop malloc calls [] (s ++ []) b.message = addSegment (malloc calls) b.message s
      rw [append_nil, pathLoop_last malloc calls b.message s [] hs' hs, nil_append]
    | cons t segs =>
      show pathLoop malloc calls [] (s ++ 0x2f :: (t ++ joinSegments segs)) b.message = _
      rw [pathLoop_append_slash malloc calls _ b.message s [] hs' (by simpa using hs)]
      rfl

theorem addedSegments_sublist (segs : List Bytes) :
    ∀ room calls, (addedSegments malloc room calls segs).Sublist segs := by
  induction segs with
  | nil => exact fun _ _ => List.Sublist.refl _
  | cons s segs ih =>
    intro room calls
    rw [addedSegments]
    split_ifs
    · exact (ih _ _).cons_cons s
    · exact (ih _ _).cons s

theorem length_addedSegments_iff (segs : List Bytes) :
    ∀ room calls, (addedSegments malloc room calls segs).length = segs.length ↔
      segs.length ≤ room ∧ ∀ k < segs.length, malloc (calls + k) := by
  induction segs with
  | nil => exact fun room calls => iff_of_true rfl ⟨Nat.zero_le _, nofun⟩
  | cons s segs ih =>
    intro room calls
    rw [addedSegments, length_cons, Nat.forall_lt_succ_left]
    split_ifs with hadd
    · rw [length_cons, Nat.add_right_cancel_iff, ih]
      have hcalls : ∀ k, calls + 1 + k = calls + (k + 1) := fun k => by omega
      simp only [hcalls, Nat.add_zero, and_iff_right hadd.2]
      refine and_congr_left fun _ => ?_
      have := hadd.1
      omega
    · have hle := (addedSegments_sublist malloc segs room (calls + 1)).length_le
      refine iff_of_false (by omega) fun h => hadd ⟨by omega, h.2.1⟩

theorem buildStep_segment (null : Memory) (b : Building) (calls : ℕ) {s : Bytes}
    (hs : s.length < 2 ^ 16) :
    let b' := buildStep null b (.strOption (malloc calls) coapOptionUriPath (memOf s fun _ => 0)
      (UInt16.ofNat s.length))
    if 0 < coapMsgMaxOptionNum - b.message.options.length ∧ malloc calls then
      b'.message.options.map CoapMsgOption.bytes
          = b.message.options.map CoapMsgOption.bytes ++ [s] ∧
        b'.given = b.given ++ [coapOptionUriPath]
    else b' = b := by
  intro b'
  split_ifs with hadd
  · have hcall : buildCall null b.message (.strOption (malloc calls) coapOptionUriPath
        (memOf s fun _ => 0) (UInt16.ofNat s.length))
          = (coapSuccess, b.message.addOption coapOptionUriPath (UInt16.ofNat s.length)
            (memOf (memSlice (memOf s fun _ => 0) 0 (UInt16.ofNat s.length).toNat) fun _ => 0)) := by
      rw [buildCall, coapStrOptionAdd, if_neg (by omega), if_neg (not_not.mpr hadd.2)]
    have hstep : b' = _ := buildStep_of_call null hcall
    have hlen : (UInt16.ofNat s.length).toNat = s.length := by
      rw [UInt16.toNat_ofNat']
      exact Nat.mod_eq_of_lt hs
    have hread : ∀ l : Bytes, memSlice (memOf l fun _ => 0) 0 l.length = l :=
      fun l => (holdsBytes_memOf l _).holdsAt.memSlice_eq
    rw [hstep]
    refine ⟨?_, rfl⟩
    simp only [CoapBuilder.addOption, map_append, map_cons, map_nil,
      CoapMsgOption.bytes, hlen, hread]
  · apply buildStep_of_failed
    rw [not_and_or] at hadd
    rw [buildCall, coapStrOptionAdd]
    by_cases hfull : coapMsgMaxOptionNum ≤ b.message.options.length
    · rw [if_pos hfull]
      norm_num
    · rw [if_neg hfull, if_pos (hadd.resolve_left fun h => h (by omega))]
      norm_num

theorem foldl_segmentOps (null : Memory) (segs : List Bytes) :
    ∀ (calls : ℕ) (b : Building), (∀ s ∈ segs, s.length < 2 ^ 16) →
      let added := addedSegments malloc (coapMsgMaxOptionNum - b.message.options.length) calls segs
      let b' := (segmentOps malloc calls segs).foldl (buildStep null) b
      b'.message.options.map CoapMsgOption.bytes
          = b.message.options.map CoapMsgOption.bytes ++ added ∧
        b'.given = b.given ++ List.replicate added.length coapOptionUriPath := by
  induction segs with
  | nil =>
    intro calls b _
    exact ⟨(append_nil _).symm, (append_nil _).symm⟩
  | cons s segs ih =>
    intro calls b hshort added b'
    have hstep := buildStep_segment malloc null b calls (hshort s mem_cons_self)
    obtain ⟨hvalues, hgiven⟩ := ih (calls + 1) (buildStep null b (.strOption (malloc calls)
      coapOptionUriPath (memOf s fun _ => 0) (UInt16.ofNat s.length)))
        fun t ht => hshort t (mem_cons_of_mem _ ht)
    change b'.message.options.map CoapMsgOption.bytes = _ at hvalues
    change b'.given = _ at hgiven
    rw [hvalues, hgiven]
    simp only at hstep
    generalize buildStep null b _ = next at hstep ⊢
    split_ifs at hstep with hadd
    · have hadded : added = s :: addedSegments malloc
          (coapMsgMaxOptionNum - b.message.options.length - 1) (calls + 1) segs := if_pos hadd
      have hlen := congrArg List.length hstep.1
      rw [length_append, length_map, length_map, length_singleton] at hlen
      rw [hadded, hstep.1, hstep.2, hlen, append_assoc, append_assoc, Nat.sub_sub]
      exact ⟨rfl, rfl⟩
    · have hadded : added = addedSegments malloc
          (coapMsgMaxOptionNum - b.message.options.length) (calls + 1) segs := if_neg hadd
      rw [hadded, hstep]
      exact ⟨rfl, rfl⟩

end Split

/-- However a message is written into a buffer that is large enough and read from there, the path
is joined to `path`. -/
def PathKept (msg : CoapMessage Memory) (path : Bytes) : Prop :=
  ∀ (out : Memory) (buflen : UInt16) (msg' : CoapMessage ℕ) (buf : Memory)
      (stack : Bytes), messageLength msg ≤ buflen.toNat →
    (∀ i : ℕ, i < (coapSerializeMessage msg out buflen).1 →
      buf i = (coapSerializeMessage msg out buflen).2 i) →
    let r := coapDeserializeMessage msg' buf (coapSerializeMessage msg out buflen).1
    PathRebuilt stack (r.2.atMemory buf).options path

section Kept

variable {segs : List Bytes}

theorem slash_count_joinSegments (h : ∀ s ∈ segs, 0x2f ∉ s) :
    (joinSegments segs).count 0x2f = segs.length := by
  induction segs with
  | nil => rfl
  | cons s segs ih =>
    show (0x2f :: (s ++ joinSegments segs)).count 0x2f = _
    rw [count_cons_self, count_append, count_eq_zero_of_not_mem
      (h s mem_cons_self), ih fun t ht => h t (mem_cons_of_mem _ ht)]
    simp

theorem joinSegments_eq_iff {added : List Bytes} (hsub : added.Sublist segs)
    (h : ∀ s ∈ segs, 0x2f ∉ s) :
    joinSegments added = joinSegments segs ↔ added.length = segs.length := by
  constructor
  · intro heq
    rw [← slash_count_joinSegments h, ← heq,
      slash_count_joinSegments fun s hs => h s (hsub.subset hs)]
  · intro heq
    rw [hsub.eq_of_length heq]

/-- What the options of a message that was read say of its path. -/
theorem OptionsRead.requestedPath_eq {msg : CoapMessage Memory} {buf : Memory}
    {r : ℤ × CoapMessage ℕ} (h : OptionsRead msg buf r)
    (hnumbers : msg.numberSums = List.replicate msg.options.length coapOptionUriPath.toNat) :
    requestedPath (r.2.atMemory buf).options
      = joinSegments (msg.options.map CoapMsgOption.bytes) := by
  have hall : ∀ o ∈ r.2.options, o.num = coapOptionUriPath := by
    intro o ho
    have hmem : o.num.toNat ∈ r.2.options.map fun o => o.num.toNat := mem_map_of_mem ho
    rw [h.numbers, hnumbers, map_replicate] at hmem
    exact UInt16.toNat_inj.mp (eq_of_mem_replicate hmem)
  rw [← h.map_bytes, joinSegments, flatMap_map, requestedPath, filter_eq_self.mpr]
  intro o ho
  obtain ⟨o', ho', rfl⟩ := mem_map.mp ho
  simpa using hall o' ho'

theorem length_lt_joinSegments {s : Bytes} (hs : s ∈ segs) :
    s.length < (joinSegments segs).length := by
  induction segs with
  | nil => cases hs
  | cons t segs ih =>
    show _ < (0x2f :: (t ++ joinSegments segs)).length
    rw [length_cons, length_append]
    rcases mem_cons.mp hs with rfl | hs
    · omega
    · have := ih hs
      omega

theorem zero_notMem_joinSegments (h : ∀ s ∈ segs, 0 ∉ s) : 0 ∉ joinSegments segs := by
  intro hmem
  obtain ⟨s, hs, hzero⟩ := mem_flatMap.mp hmem
  rcases mem_cons.mp hzero with hslash | hzero
  · cases hslash
  · exact h s hs hzero

theorem coapRequestPath_head (options : List (CoapMsgOption Memory)) :
    ∀ path : Bytes, path = [] ∨ path.head? = some 0x2f →
      coapRequestPath path options = [] ∨ (coapRequestPath path options).head? = some 0x2f := by
  induction options with
  | nil => exact fun path h => h
  | cons o options ih =>
    intro path h
    rw [coapRequestPath]
    split_ifs
    · apply ih
      rcases h with rfl | h
      · exact .inr rfl
      · exact Or.inr (by simp [h])
    · exact ih path h

theorem PathRebuilt.head {stack : Bytes} {options : List (CoapMsgOption Memory)}
    {path : Bytes} (h : PathRebuilt stack options path) :
    path = [] ∨ path.head? = some 0x2f := by
  rw [← h.equal, requestString, (cChars_append h.terminated stack).1, requestBuffer]
  rcases coapRequestPath_head options [] (.inl rfl) with hnil | hhead
  · rw [hnil]
    exact .inl rfl
  · obtain ⟨rest, hrest⟩ := List.head?_eq_some_iff.mp hhead
    rw [hrest]
    exact .inr rfl

end Kept

section Splitting

variable {null : Memory} {malloc : ℕ → Bool} {b : Building} {lead : Bool}
  {segs : List Bytes} {uri : CString}

theorem coapServerPath2Option_eq (null : Memory) (malloc : ℕ → Bool) (b : Building)
    (hsegs : PathSegments segs) (huri : uri.bytes = segmentsPath lead segs)
    (hlen : uri.strlen < coapMsgMaxPathLen) :
    (coapServerPath2Option malloc uri b.message).2
      = ((segmentOps malloc 0 segs).foldl (buildStep null) b).message := by
  rw [coapServerPath2Option, if_neg (Nat.not_le_of_lt hlen), huri,
    ← pathLoop_segments malloc null segs 0 b hsegs.segment_ne_nil hsegs.slash_notMem, segmentsPath]
  split_ifs
  · cases segs with
    | nil => exact absurd rfl hsegs.ne_nil
    | cons s segs =>
      show pathLoop malloc 0 [] (0x2f :: (s ++ joinSegments segs)) b.message = _
      rw [pathLoop, if_pos rfl, if_neg fun h => h rfl]
      rfl
  · rfl

theorem segments_sent (null : Memory) (malloc : ℕ → Bool) (hb : b.Ok) (hfresh : b.given = [])
    (hsegs : PathSegments segs) (hshort : ∀ s ∈ segs, s.length < 2 ^ 16) :
    let msg := ((segmentOps malloc 0 segs).foldl (buildStep null) b).message.toCoapMessage
    msg.Sendable ∧ ¬ msg.EndsEmpty ∧ ∀ (buf : Memory) (r : ℤ × CoapMessage ℕ),
      OptionsRead msg buf r → requestedPath (r.2.atMemory buf).options
        = joinSegments (addedSegments malloc coapMsgMaxOptionNum 0 segs) := by
  intro msg
  have hnil : b.message.options = [] := by
    have hlen := congrArg List.length hb.deltas
    rw [hfresh, length_map] at hlen
    exact length_eq_zero_iff.mp hlen
  have hok : ((segmentOps malloc 0 segs).foldl (buildStep null) b).Ok :=
    GuardedRun.inv_foldl Building.Ok (fun b op h => Building.Ok.buildStep null h op) hb _
  obtain ⟨hvalues, hgiven⟩ := foldl_segmentOps malloc null segs 0 b hshort
  rw [hnil, map_nil, nil_append, length_nil, Nat.sub_zero] at hvalues
  rw [hnil, hfresh, nil_append, length_nil, Nat.sub_zero] at hgiven
  have hcount : msg.options.length = (addedSegments malloc coapMsgMaxOptionNum 0 segs).length := by
    rw [← hvalues, length_map]
  refine ⟨hok.sendable, ?_, ?_⟩
  · rintro ⟨-, o, ho, hempty⟩
    have hmem : o.bytes ∈ addedSegments malloc coapMsgMaxOptionNum 0 segs := by
      rw [← hvalues]
      exact mem_map_of_mem (mem_of_getLast? ho)
    apply hsegs.segment_ne_nil _ ((addedSegments_sublist malloc segs _ _).subset hmem)
    rw [CoapMsgOption.bytes, hempty]
    rfl
  · intro buf r hread
    have hsums : msg.numberSums = List.replicate msg.options.length coapOptionUriPath.toNat := by
      have hdeltas := hok.deltas
      rw [hgiven] at hdeltas
      have hiff := numbersFrom_deltasFrom _ msg.options 0 hdeltas
        (fun n _ => Nat.zero_le n.toNat) (pairwise_replicate.mpr (.inr (UInt16.le_refl _)))
      rw [← CoapMessage.numberSums_eq, hcount, ← map_replicate]
      refine hiff.mpr fun n hn => ?_
      rw [eq_of_mem_replicate (mem_of_mem_dropLast hn)]
      decide
    rw [hread.requestedPath_eq hsums, hvalues]

/-- **Splitting.**  The path comes out as it went in exactly if it begins with a slash and all of
its segments get an option. -/
theorem pathKept_iff (null : Memory) (hb : b.Ok) (hfresh : b.given = [])
    (hsegs : PathSegments segs) (huri : uri.bytes = segmentsPath lead segs)
    (hlen : uri.strlen < coapMsgMaxPathLen)
    (hfits : messageLength (coapServerPath2Option malloc uri b.message).2.toCoapMessage < 2 ^ 16) :
    PathKept (coapServerPath2Option malloc uri b.message).2.toCoapMessage uri.bytes ↔
      lead = true ∧ segs.length ≤ coapMsgMaxOptionNum ∧ ∀ k < segs.length, malloc k := by
  have hmax : coapMsgMaxPathLen = 128 := rfl
  have hjoin : (joinSegments segs).length ≤ uri.strlen + 1 := by
    rw [CString.strlen, huri, segmentsPath]
    split_ifs
    · exact Nat.le_succ _
    · rw [length_tail]
      omega
  obtain ⟨hsendable, hends, hpath⟩ := segments_sent null malloc hb hfresh hsegs fun s hs => by
      have := length_lt_joinSegments hs
      omega
  rw [coapServerPath2Option_eq null malloc b hsegs huri hlen] at hfits ⊢
  generalize ((segmentOps malloc 0 segs).foldl (buildStep null) b).message.toCoapMessage = msg at *
  have hsub := addedSegments_sublist malloc segs coapMsgMaxOptionNum 0
  have hadded := length_addedSegments_iff malloc segs coapMsgMaxOptionNum 0
  simp only [Nat.zero_add] at hadded
  rw [← hadded, ← joinSegments_eq_iff hsub hsegs.slash_notMem]
  -- with a slash in front, what was added fits the buffer
  have hrebuilt : lead = true → ∀ (stack : Bytes) (buf : Memory) (r : ℤ × CoapMessage ℕ),
      OptionsRead msg buf r → PathRebuilt stack (r.2.atMemory buf).options
        (joinSegments (addedSegments malloc coapMsgMaxOptionNum 0 segs)) := by
    intro hlead stack buf r hread
    rw [← hpath buf r hread]
    apply (pathRebuilt_iff stack _).mpr
    rw [hpath buf r hread]
    refine ⟨?_, zero_notMem_joinSegments fun s hs => hsegs.nul_notMem s (hsub.subset hs)⟩
    have hle : (joinSegments (addedSegments malloc coapMsgMaxOptionNum 0 segs)).length
        ≤ (joinSegments segs).length := (hsub.flatMap _).length_le
    have huri' : (joinSegments segs).length = uri.strlen := by
      rw [CString.strlen, huri, segmentsPath, if_pos hlead]
    omega
  constructor
  · intro h
    have hlen' : (UInt16.ofNat (messageLength msg)).toNat = messageLength msg := by
      rw [UInt16.toNat_ofNat']
      exact Nat.mod_eq_of_lt hfits
    have hkept := h (fun _ => 0) _ zeroMessage _ [] hlen'.ge fun _ _ => rfl
    have hread := (hsendable.sent (fun _ => 0) hlen'.ge zeroMessage fun _ _ => rfl).2 hends
    have hlead : lead = true := by
      by_contra hnot
      obtain ⟨s, segs', rfl⟩ := exists_cons_of_ne_nil hsegs.ne_nil
      obtain ⟨c, s', rfl⟩ := exists_cons_of_ne_nil (hsegs.segment_ne_nil s mem_cons_self)
      have huri' : uri.bytes = c :: (s' ++ joinSegments segs') := by
        rw [huri, segmentsPath, if_neg hnot]
        rfl
      rcases hkept.head with hnil | hslash
      · rw [huri'] at hnil
        cases hnil
      · rw [huri', List.head?_cons, Option.some.injEq] at hslash
        exact hsegs.slash_notMem _ mem_cons_self (hslash ▸ mem_cons_self)
    refine ⟨hlead, ?_⟩
    rw [← (hrebuilt hlead [] _ _ hread).equal, hkept.equal, huri, segmentsPath, if_pos hlead]
  · rintro ⟨hlead, hall⟩ out buflen msg' buf stack hfits hbuf r
    have hread := (hsendable.sent out hfits msg' hbuf).2 hends
    have huri' : uri.bytes = joinSegments segs := by rw [huri, segmentsPath, if_pos hlead]
    rw [huri', ← hall]
    exact hrebuilt hlead stack buf r hread

/-- **A request reaches its resource.**  In a run of registrations that all register (there is room
for a path that is registered again, a new node can be made, and no filter hides behind a longer one
that begins with it), a path is split, sent and read: the request calls the callback of a registration
that covers the path, if its code has the permission, with that path; it calls none without such a
registration. -/
theorem callbackPaths_request {H U C : Type} {md5 : Bytes → Vector UInt8 16} {maxcount : UInt8}
    {ctx : CoapIntContext H U C} (hinit : ctx.resource = CoapList.init _ maxcount)
    {calls : List (RegisterCall C)} (hregs : AllRegister maxcount.toNat calls)
    (hapart : DigestsApart md5 (uri :: calls.map (·.path))) (hb : b.Ok) (hfresh : b.given = [])
    (hsegs : PathSegments segs) (huri : uri.bytes = segmentsPath true segs)
    (hlen : uri.strlen < coapMsgMaxPathLen) (hroom : segs.length ≤ coapMsgMaxOptionNum)
    (hmalloc : ∀ k < segs.length, malloc k) (out buf : Memory) (msg' : CoapMessage ℕ)
    {buflen : UInt16} (env : CoapEnv) (remote : NetworkAddr) (stack : Bytes) :
    let msg := (coapServerPath2Option malloc uri b.message).2.toCoapMessage
    let sent := coapSerializeMessage msg out buflen
    let request := (coapDeserializeMessage msg' buf sent.1).2.atMemory buf
    let server := registerRun md5 ctx calls
    let called := (handleRequestPath md5 env server remote request
      (requestString stack request.options)).callbackPaths
    messageLength msg ≤ buflen.toNat → (∀ i : ℕ, i < sent.1 → buf i = sent.2 i) →
      (∃ r ∈ registered maxcount.toNat calls, r.Covers uri ∧
        called = server.callbackPaths ++ (r.node md5 0).calls request.header.code uri.bytes) ∨
      (∀ r ∈ registered maxcount.toNat calls, ¬ r.Covers uri) ∧ called = server.callbackPaths := by
  intro msg sent request server called hfits hbuf
  have hkept := (pathKept_iff (fun _ => 0) hb hfresh hsegs huri hlen
    (Nat.lt_of_le_of_lt hfits buflen.toNat_lt)).mpr ⟨rfl, hroom, hmalloc⟩ out buflen msg' buf stack
      hfits hbuf
  have hrep := registerRun_represents hinit calls (hapart.mono (subset_cons_self _ _)) hregs
  have hlooks := (looksUp_iff hrep.entries (hapart.mono
      (cons_subset_cons _ (registered_subset _ _)))).mpr fun hnil => by
    obtain ⟨s, segs', rfl⟩ := exists_cons_of_ne_nil hsegs.ne_nil
    cases hnil.symm.trans huri
  have hcalled : called =
      (handleRequestPath md5 env server remote request uri.bytes).callbackPaths := by
    rw [← hkept.equal]
  rw [hcalled]
  cases hget : coapResourceByPathGet md5 server uri.bytes with
  | none =>
    refine .inr ⟨fun r hr hcovers => ?_, ?_⟩
    · have hsome := hlooks.found.mpr ⟨r, hr, hcovers⟩
      rw [hget] at hsome
      cases hsome
    · simp only [handleRequestPath, hget, callbackPaths_coapErrRespMessageSend]
  | some node =>
    obtain ⟨r, hr, hcovers, hnode⟩ := hlooks.served node hget
    refine .inl ⟨r, hr, hcovers, ?_⟩
    rw [callbackPaths_of_get hget, hnode]
    rfl

end Splitting

theorem callbackPaths_request_a :
    let b : Building := ⟨{ CoapBuilder.init with header := ⟨1, 0, 0, coapMsgCodeGet, 1⟩ }, []⟩
    let msg := (coapServerPath2Option (fun _ => true) aPath b.message).2.toCoapMessage
    let sent := coapSerializeMessage msg (fun _ => 0) 64
    let request := (coapDeserializeMessage zeroMessage sent.2 sent.1).2.atMemory sent.2
    (handleRequestPath aDigest ⟨true, true, true, 0, 0⟩
      (registerRun aDigest (emptyContext 8) aCalls) ⟨Vector.replicate 16 0, 0⟩ request
      (requestString [] request.options)).callbackPaths = [((), aPath.bytes)] := by
  intro b msg sent request
  have hapart : DigestsApart aDigest (aPath :: aCalls.map (·.path)) :=
    aDigest_apart.mono (by simp [aCalls, registerCall])
  have hb : b.Ok := ⟨⟨by decide, by decide, by decide⟩, rfl, rfl⟩
  have hsegs : PathSegments [[0x61]] := ⟨by decide, by decide, by decide, by decide⟩
  have hinit : (emptyContext 8).resource = CoapList.init _ 8 := rfl
  rcases callbackPaths_request hinit (by decide) hapart hb rfl hsegs rfl (by decide) (by decide)
    (fun _ _ => rfl) (fun _ => 0) sent.2 zeroMessage ⟨true, true, true, 0, 0⟩
    ⟨Vector.replicate 16 0, 0⟩ [] (by decide) (fun _ _ => rfl) with ⟨r, hr, -, hcalled⟩ | ⟨hnone, -⟩
  · refine hcalled.trans ?_
    revert r
    decide
  · exact absurd rfl (hnone (registerCall 3 aPath).toRegistration (.tail _ (.head _)))

/-! ## Paths -/

/-- **Uri-Path.**  A path that is split into the options of a new message comes out as it went in
exactly if it begins with a slash and each segment gets an option.  A request has its path joined,
or calls no callback, exactly if it fits its buffer with a terminator and has no NUL, or no
permission allows its code. -/
theorem coap_uri_path_iff {H U C : Type} [Nonempty C] (null : Memory) (malloc : ℕ → Bool)
    (b : Building) (hb : b.Ok) (hfresh : b.given = []) (lead : Bool) (segs : List Bytes)
    (hsegs : PathSegments segs) (uri : CString) (huri : uri.bytes = segmentsPath lead segs)
    (hlen : uri.strlen < coapMsgMaxPathLen)
    (hfits : messageLength (coapServerPath2Option malloc uri b.message).2.toCoapMessage < 2 ^ 16)
    (message : CoapMessage Memory) (hreq : coapReqMsg message.header) :
    ((coapServerPath2Option malloc uri b.message).1 = coapSuccess ∧
      (PathKept (coapServerPath2Option malloc uri b.message).2.toCoapMessage uri.bytes ↔
        lead = true ∧ segs.length ≤ coapMsgMaxOptionNum ∧ ∀ k < segs.length, malloc k)) ∧
    ((∀ md5 env (ctx : CoapIntContext H U C) remote stack,
        PathServed md5 env ctx remote stack message) ↔
      (requestedPath message.options).length < coapMsgMaxPathLen ∧
          0 ∉ requestedPath message.options ∨
        16 < message.header.code) := by
  have hrc : (coapServerPath2Option malloc uri b.message).1 = coapSuccess := by
    rw [coapServerPath2Option, if_neg (Nat.not_le_of_lt hlen)]
  exact ⟨⟨hrc, pathKept_iff null hb hfresh hsegs huri hlen hfits⟩, pathServed_iff message hreq⟩

/-- The path `/a/b`. -/
def abPath : CString := ⟨[0x2f, 0x61, 0x2f, 0x62], by decide⟩

/-- A request with one segment. -/
def requestFor (segment : Bytes) : CoapMessage Memory :=
  ⟨⟨1, 0, 0, coapMsgCodeGet, 1⟩, fun _ => 0,
    [⟨coapOptionUriPath, UInt16.ofNat segment.length, memOf segment fun _ => 0⟩], 0, none⟩

theorem newBuilding_ok : (⟨CoapBuilder.init, []⟩ : Building).Ok := build_ok (fun _ => 0) []

theorem coap_uri_path_ab :
    PathKept (coapServerPath2Option (fun _ => true) abPath CoapBuilder.init).2.toCoapMessage
        [0x2f, 0x61, 0x2f, 0x62] ∧
      ∀ md5 env (ctx : CoapIntContext Unit Unit Unit) remote stack,
        PathServed md5 env ctx remote stack (requestFor [0x61]) := by
  have h := coap_uri_path_iff (H := Unit) (U := Unit) (C := Unit) (fun _ => 0) (fun _ => true)
    ⟨CoapBuilder.init, []⟩ newBuilding_ok rfl true [[0x61], [0x62]]
    ⟨by decide, by decide, by decide, by decide⟩ abPath rfl (by decide) (by decide)
    (requestFor [0x61]) (by decide)
  exact ⟨h.1.2.mpr ⟨rfl, by decide, fun _ _ => rfl⟩, h.2.mpr (.inl (by decide))⟩

/-- A path of thirteen segments. -/
def thirteenPath : CString :=
  ⟨segmentsPath true (List.replicate 13 [0x61]), by decide⟩

/-- The last of thirteen segments is lost.  A segment of 127 bytes is joined to a path of 128
bytes, with which a callback is called. -/
theorem coap_uri_path_lost :
    ((coapServerPath2Option (fun _ => true) thirteenPath CoapBuilder.init).1 = coapSuccess ∧
      ¬ PathKept (coapServerPath2Option (fun _ => true) thirteenPath
        CoapBuilder.init).2.toCoapMessage thirteenPath.bytes) ∧
    0 ∉ requestBuffer (requestFor (List.replicate 127 0x61)).options ∧
    ¬ ∀ md5 env (ctx : CoapIntContext Unit Unit Unit) remote stack,
      PathServed md5 env ctx remote stack (requestFor (List.replicate 127 0x61)) := by
  refine ⟨⟨by decide, fun h => ?_⟩, by decide +kernel, fun h => ?_⟩
  · have hsegs : PathSegments (List.replicate 13 [0x61]) :=
      ⟨by decide, by decide, by decide, by decide⟩
    have huri : thirteenPath.bytes = segmentsPath true (List.replicate 13 [0x61]) := rfl
    have hkept := (pathKept_iff (fun _ => 0) newBuilding_ok rfl hsegs huri (by decide)
      (by decide)).mp h
    exact absurd hkept.2.1 (by decide)
  · rcases (pathServed_iff (requestFor (List.replicate 127 0x61)) (by decide)).mp h with hpath | hcode
    · exact absurd hpath.1 (by decide +kernel)
    · exact absurd hcode (by decide)

end Iotkit.Coap
