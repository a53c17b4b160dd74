/-
# What the digests of a download cover

Along every run of messages, downloads and commands.  The message of a configuration sets
`size_fetched` back, the message of a firmware does not, so the second of two firmware downloads
goes on counting, and hashing, where the first ended.
-/
import Iotkit.GuardedRun
import Iotkit.Ota

namespace Iotkit.Ota

open GuardedRun

/-! ## One step -/

theorem finishCall_digest (h : OtaStruct) :
    h.finishCall.state = h.state ∧ h.finishCall.sizeFetched = h.sizeFetched ∧
      h.finishCall.sizeFile = h.sizeFile ∧ h.finishCall.md5 = h.md5 ∧
      h.finishCall.sha256 = h.sha256 := by
  unfold OtaStruct.finishCall
  by_cases hfota : h.hasFetchCb ∧ h.purl.isSome
  · rw [if_pos hfota]
    exact ⟨rfl, rfl, rfl, rfl, rfl⟩
  · by_cases hcota : h.hasFetchCotaCb ∧ h.cotaUrl.isSome
    · rw [if_neg hfota, if_pos hcota]
      exact ⟨rfl, rfl, rfl, rfl, rfl⟩
    · rw [if_neg hfota, if_neg hcota]
      exact ⟨rfl, rfl, rfl, rfl, rfl⟩

/-- The bytes of a chunk are hashed and counted, and the download is over when the size of the
file is reached. -/
theorem fetchCount_spec (buf : Bytes) (h : OtaStruct) :
    (fetchCount buf h).md5 = h.md5.map (·.update buf) ∧
      (fetchCount buf h).sha256 = h.sha256.map (·.update buf) ∧
      (fetchCount buf h).sizeFetched = h.sizeFetched + UInt32.ofNat buf.length ∧
      (fetchCount buf h).sizeFile = h.sizeFile ∧
      ((fetchCount buf h).state = .fetched → h.state ≠ .fetched →
        h.sizeFile ≤ h.sizeFetched + UInt32.ofNat buf.length) := by
  unfold fetchCount
  dsimp only
  by_cases hover : h.sizeFile ≤ h.sizeFetched + UInt32.ofNat buf.length
  · rw [if_pos hover]
    obtain ⟨-, hsize, hfile, hmd5, hsha256⟩ := finishCall_digest { h with
        md5 := h.md5.map (·.update buf), sha256 := h.sha256.map (·.update buf)
        sizeLastFetched := UInt32.ofNat buf.length
        sizeFetched := h.sizeFetched + UInt32.ofNat buf.length
        type := .none, state := .fetched }
    exact ⟨hmd5, hsha256, hsize, hfile, fun _ _ => hover⟩
  · rw [if_neg hover]
    exact ⟨rfl, rfl, rfl, rfl, fun hstate hne => absurd hstate hne⟩

variable (env : OtaEnv) (memory : ℕ → Bool)

theorem state_otalibGetParams (json : Bytes) (h : OtaStruct) :
    (otalibGetParams env memory json h).2.state = h.state := by
  unfold otalibGetParams
  split
  · rfl
  · split
    · rfl
    · split
      · rfl
      · split <;> rfl

variable (stack : Bytes)

theorem state_otalibGetConfigParams (json : Bytes) (h : OtaStruct) :
    (otalibGetConfigParams env memory stack json h).2.state = h.state := by
  unfold otalibGetConfigParams
  split
  · rfl
  · split
    · rfl
    · dsimp only
      split
      · rfl
      · split
        · rfl
        · split
          · rfl
          · split <;> rfl

theorem state_firmwareMessage (msg : Bytes) (h : OtaStruct) :
    (firmwareMessage env memory msg h).2.state = h.state ∨
      (firmwareMessage env memory msg h).2.state = .fetching := by
  unfold firmwareMessage
  split
  · exact .inl rfl
  · split
    · exact .inl rfl
    · next data _ =>
        have hparams := state_otalibGetParams env memory data h
        generalize otalibGetParams env memory data h = out at hparams ⊢
        obtain ⟨ok, h'⟩ := out
        cases ok with
        | false => exact .inl hparams
        | true =>
          dsimp only
          split
          · exact .inl hparams
          · refine .inr ?_
            split <;> rfl

theorem state_configMessage (params : Bytes) (h : OtaStruct) :
    (configMessage env memory stack params h).2.state = h.state ∨
      (configMessage env memory stack params h).2.state = .fetching := by
  unfold configMessage
  have hparams := state_otalibGetConfigParams env memory stack params h
  generalize otalibGetConfigParams env memory stack params h = out at hparams ⊢
  obtain ⟨ok, h'⟩ := out
  cases ok with
  | false => exact .inl hparams
  | true =>
    dsimp only
    split
    · exact .inl hparams
    · refine .inr ?_
      split <;> rfl

/-- A message leaves the state of the handle or starts a download. -/
theorem state_otaCallback (msg : Bytes) (type : TopicType) (h : OtaStruct) :
    (otaCallback env memory stack msg type h).2.state = h.state ∨
      (otaCallback env memory stack msg type h).2.state = .fetching := by
  unfold otaCallback
  split
  · exact .inl rfl
  · cases type with
    | deviceRequest => exact state_firmwareMessage ..
    | deviceUpgrate => exact state_firmwareMessage ..
    | configGet =>
      dsimp only
      split
      · exact .inl rfl
      · split
        · exact .inl rfl
        · exact state_configMessage ..
    | configPush =>
      dsimp only
      split
      · exact .inl rfl
      · exact state_configMessage ..
    | max => exact .inl rfl

theorem otaCallback_fetching (msg : Bytes) (type : TopicType) {h : OtaStruct}
    (hstate : h.state = .fetching) :
    otaCallback env memory stack msg type h = (-1, h) :=
  if_pos hstate

/-! ## The condition on the steps -/

/-- The steps of a download that keeps count: its first chunk is fetched while `size_fetched`
is 0, all of its bytes are fewer than 2 ^ 32, and it is not set back once bytes have been
delivered. -/
def OtaAdmissible (r : OtaRun) : OtaOp → Prop
  | .message _ _ _ _ => True
  | .fetchYield _ fetch _ => ∀ buf ∈ fetch, r.ota.state = .fetching →
      (r.delivered = [] → r.ota.sizeFetched = 0) ∧ r.delivered.length + buf.length < 2 ^ 32
  | .ioctl cmd _ => cmd = .resetFetchedSize → r.ota.state = .fetching → r.delivered = []

/-- The bytes delivered are counted and hashed. -/
structure OtaRun.Counted (r : OtaRun) : Prop where
  size : r.ota.sizeFetched.toNat = r.delivered.length
  md5 : r.ota.md5 = some ⟨r.delivered, false⟩
  sha256 : r.ota.sha256 = some ⟨r.delivered, false⟩

/-- While a download is on, nothing has been delivered, or all that was is counted. -/
def Covering (r : OtaRun) : Prop :=
  r.ota.state = .fetching → r.delivered = [] ∨ r.Counted

theorem counted_fetchCount {ota : OtaStruct} {delivered buf : Bytes}
    (h : OtaRun.Counted ⟨ota, delivered⟩) (hlt : delivered.length + buf.length < 2 ^ 32) :
    OtaRun.Counted ⟨fetchCount buf ota, delivered ++ buf⟩ := by
  obtain ⟨hmd5, hsha256, hsize, -, -⟩ := fetchCount_spec buf ota
  have hcount : ota.sizeFetched.toNat = delivered.length := h.size
  refine ⟨?_, ?_, ?_⟩
  · change (fetchCount buf ota).sizeFetched.toNat = _
    have hbuf : (UInt32.ofNat buf.length).toNat = buf.length := by
      rw [UInt32.toNat_ofNat']
      exact Nat.mod_eq_of_lt (by omega)
    rw [hsize, UInt32.toNat_add, hbuf, hcount, List.length_append]
    exact Nat.mod_eq_of_lt hlt
  · exact hmd5.trans (by rw [h.md5]; rfl)
  · exact hsha256.trans (by rw [h.sha256]; rfl)

variable {r : OtaRun}

/-- What a call that fetches a chunk while a download is on comes to: a digest cannot be
allocated, or the chunk is counted. -/
theorem fetchYield_cases (h : Covering r) (hstate : r.ota.state = .fetching) {buf : Bytes}
    {memory : ℕ → Bool} (hok : OtaAdmissible r (.fetchYield true (some buf) memory)) :
    ((iotOtaFetchYield true (some buf) memory r.ota).1 = -1 ∧
        (iotOtaFetchYield true (some buf) memory r.ota).2.state = .fetching ∧
        r.delivered = []) ∨
      ∃ ota : OtaStruct, OtaRun.Counted ⟨ota, r.delivered⟩ ∧ ota.state = .fetching ∧
        iotOtaFetchYield true (some buf) memory r.ota = ((buf.length : ℤ), fetchCount buf ota) := by
  obtain ⟨hfirst, -⟩ := hok buf rfl hstate
  unfold iotOtaFetchYield
  rw [if_neg (by decide), if_neg (not_not.mpr hstate)]
  by_cases hzero : r.ota.sizeFetched = 0
  · have hnothing : r.delivered = [] := by
      rcases h hstate with hnil | hcounted
      · exact hnil
      · have hsize := hcounted.size
        rw [hzero] at hsize
        exact List.eq_nil_of_length_eq_zero hsize.symm
    simp only [if_pos hzero]
    by_cases hmd5 : memory 0 = false
    · rw [if_pos hmd5]
      exact .inl ⟨rfl, hstate, hnothing⟩
    by_cases hsha256 : memory 1 = false
    · rw [if_neg hmd5, if_pos hsha256]
      exact .inl ⟨rfl, hstate, hnothing⟩
    rw [if_neg hmd5, if_neg hsha256]
    refine .inr ⟨{ r.ota with md5 := some ⟨[], false⟩, sha256 := some ⟨[], false⟩ },
      ⟨?_, ?_, ?_⟩, hstate, rfl⟩
    · simp [hzero, hnothing]
    · simp [hnothing]
    · simp [hnothing]
  · simp only [if_neg hzero]
    have hcounted := (h hstate).resolve_left fun hnil => hzero (hfirst hnil)
    exact .inr ⟨r.ota, hcounted, hstate, rfl⟩

theorem check_fetching (cmd : CmdType) (buf : IoctlBuf) {out : ℤ × IoctlOut × OtaStruct}
    {h : OtaStruct} (hout : out.2.2.state = h.state) :
    let checked := if buf.isWord = false then ((-1, .nothing, h) : ℤ × IoctlOut × OtaStruct)
      else if h.state ≠ .fetched then (-1, .nothing, h) else out
    checked.2.2.state = h.state ∧
      (h.state = .fetching → cmd ≠ .resetFetchedSize → checked.2.2 = h) := by
  by_cases hword : buf.isWord = false
  · rw [if_pos hword]
    exact ⟨rfl, fun _ _ => rfl⟩
  · by_cases hstate : h.state ≠ .fetched
    · rw [if_neg hword, if_pos hstate]
      exact ⟨rfl, fun _ _ => rfl⟩
    · rw [if_neg hword, if_neg hstate]
      exact ⟨hout, fun hfetching _ => absurd (hfetching ▸ by decide) hstate⟩

/-- The commands keep the state of the handle, and all but one keep what is counted while a
download is on. -/
theorem ioctl_fetching (cmd : CmdType) (buf : IoctlBuf) (h : OtaStruct) :
    (iotOtaIoctl env cmd buf h).2.2.state = h.state ∧
      (h.state = .fetching → cmd ≠ .resetFetchedSize →
        (iotOtaIoctl env cmd buf h).2.2 = h) := by
  unfold iotOtaIoctl
  by_cases hvalid : buf.valid = false
  · rw [if_pos hvalid]
    exact ⟨rfl, fun _ _ => rfl⟩
  by_cases hinit : h.state = .uninited ∨ h.state = .inited
  · rw [if_neg hvalid, if_pos hinit]
    exact ⟨rfl, fun _ _ => rfl⟩
  rw [if_neg hvalid, if_neg hinit]
  cases cmd with
  | checkFirmware => exact check_fetching _ buf rfl
  | checkConfig => exact check_fetching _ buf rfl
  | resetFetchedSize => exact ⟨rfl, fun _ hne => absurd rfl hne⟩
  | _ => exact ⟨rfl, fun _ _ => rfl⟩

/-! ## A whole run -/

variable {env : OtaEnv}

theorem Covering.message (h : Covering r) (memory : ℕ → Bool) (stack msg : Bytes)
    (type : TopicType) : Covering (otaStep env r (.message memory stack msg type)) := by
  intro hafter
  by_cases hstate : r.ota.state = .fetching
  · have hsame := otaCallback_fetching env memory stack msg type hstate
    simp only [otaStep, otaExec, deliveredAfter, hsame, hstate] at hafter ⊢
    simpa using h hstate
  · refine .inl ?_
    simp only [otaStep, otaExec, deliveredAfter] at hafter ⊢
    exact if_pos ⟨hstate, hafter⟩

theorem Covering.ioctl (h : Covering r) {cmd : CmdType} {buf : IoctlBuf}
    (hok : OtaAdmissible r (.ioctl cmd buf)) : Covering (otaStep env r (.ioctl cmd buf)) := by
  intro hafter
  obtain ⟨hkeep, hsame⟩ := ioctl_fetching env cmd buf r.ota
  have hstate : r.ota.state = .fetching := hkeep ▸ hafter
  by_cases hcmd : cmd = .resetFetchedSize
  · exact .inl (hok hcmd hstate)
  · have hrun : otaStep env r (.ioctl cmd buf) = r := by
      simp only [otaStep, otaExec, deliveredAfter, hsame hstate hcmd]
    rw [hrun]
    exact h hstate

theorem fetchYield_other {valid : Bool} {fetch : Option Bytes}
    (hother : ¬ (valid = true ∧ r.ota.state = .fetching ∧ ∃ buf, fetch = some buf)) :
    (iotOtaFetchYield valid fetch memory r.ota).1 < 0 ∧
      ((iotOtaFetchYield valid fetch memory r.ota).2 = r.ota ∨
        (iotOtaFetchYield valid fetch memory r.ota).2.state ≠ .fetching) := by
  unfold iotOtaFetchYield
  by_cases hvalid : valid = false
  · rw [if_pos hvalid]
    exact ⟨(by decide : iotOtaeInvalidParam < 0), .inl rfl⟩
  by_cases hstate : r.ota.state ≠ .fetching
  · rw [if_neg hvalid, if_pos hstate]
    exact ⟨(by decide : iotOtaeInvalidState < 0), .inl rfl⟩
  rw [if_neg hvalid, if_neg hstate]
  cases fetch with
  | some buf =>
    exact absurd ⟨by simpa using hvalid, not_not.mp hstate, buf, rfl⟩ hother
  | none =>
    refine ⟨(by decide : (-1 : ℤ) < 0), .inr ?_⟩
    have hfinal := (finishCall_digest { r.ota with state := .fetched, type := .none }).1
    simp [hfinal]

theorem Covering.fetchYield (h : Covering r) {valid : Bool} {fetch : Option Bytes}
    {memory : ℕ → Bool} (hok : OtaAdmissible r (.fetchYield valid fetch memory)) :
    Covering (otaStep env r (.fetchYield valid fetch memory)) := by
  intro hafter
  by_cases hfetch : valid = true ∧ r.ota.state = .fetching ∧ ∃ buf, fetch = some buf
  · obtain ⟨rfl, hstate, buf, rfl⟩ := hfetch
    rcases fetchYield_cases h hstate hok with ⟨hret, -, hnil⟩ | ⟨ota, hcounted, -, hcall⟩
    · refine .inl ?_
      simp [otaStep, otaExec, deliveredAfter, hret, hnil]
    · have hlt := (hok buf rfl hstate).2
      have hnext := counted_fetchCount hcounted hlt
      simp only [otaStep, otaExec, deliveredAfter, hcall, Option.getD_some]
      rw [if_pos (Int.natCast_nonneg _)]
      exact .inr hnext
  · obtain ⟨hret, hsame⟩ := fetchYield_other memory hfetch
    have hstep : otaStep env r (.fetchYield valid fetch memory) =
        ⟨(iotOtaFetchYield valid fetch memory r.ota).2, r.delivered⟩ :=
      congrArg (OtaRun.mk _) (if_neg (not_le.mpr hret))
    rw [hstep] at hafter ⊢
    rcases hsame with hsame | hdone
    · rw [hsame] at hafter ⊢
      exact h hafter
    · exact absurd hafter hdone

theorem Covering.step (env : OtaEnv) (r : OtaRun) (op : OtaOp) (h : Covering r)
    (hok : OtaAdmissible r op) : Covering (otaStep env r op) := by
  cases op with
  | message memory stack msg type => exact h.message memory stack msg type
  | fetchYield valid fetch memory => exact h.fetchYield hok
  | ioctl cmd buf => exact h.ioctl hok

/-- Only a call that fetches ends a download without an error, and then all is counted. -/
theorem Covering.fetched (h : Covering r) {op : OtaOp} (hok : OtaAdmissible r op)
    (hbefore : r.ota.state ≠ .fetched) (hafter : (otaStep env r op).ota.state = .fetched)
    (hret : 0 ≤ (otaExec env r.ota op).1) :
    (otaStep env r op).Counted ∧
      (otaStep env r op).ota.sizeFile ≤ (otaStep env r op).ota.sizeFetched := by
  cases op with
  | message memory stack msg type =>
    rcases state_otaCallback env memory stack msg type r.ota with hsame | hstart
    · exact absurd (hsame ▸ hafter) hbefore
    · exact absurd (hstart.symm.trans hafter) (by decide)
  | ioctl cmd buf =>
    exact absurd ((ioctl_fetching env cmd buf r.ota).1 ▸ hafter) hbefore
  | fetchYield valid fetch memory =>
    by_cases hfetch : valid = true ∧ r.ota.state = .fetching ∧ ∃ buf, fetch = some buf
    · obtain ⟨rfl, hstate, buf, rfl⟩ := hfetch
      rcases fetchYield_cases h hstate hok with ⟨hneg, -, -⟩ | ⟨ota, hcounted, hota, hcall⟩
      · simp only [otaExec, hneg] at hret
        exact absurd hret (by decide)
      have hlt := (hok buf rfl hstate).2
      have hnext := counted_fetchCount hcounted hlt
      simp only [otaStep, otaExec, deliveredAfter, hcall, Option.getD_some] at hafter ⊢
      rw [if_pos (Int.natCast_nonneg _)]
      obtain ⟨-, -, hsize, hfile, hover⟩ := fetchCount_spec buf ota
      refine ⟨hnext, ?_⟩
      rw [hsize, hfile]
      exact hover hafter (by rw [hota]; decide)
    · have hneg := (fetchYield_other memory hfetch).1
      exact absurd hret (not_le.mpr hneg)

/-- **The digests of a download.**  If each download starts with `size_fetched` at 0, has fewer than
2 ^ 32 bytes and is not set back once bytes were delivered: when the state becomes
`IOT_OTAS_FETCHED` without an error, `size_fetched` is the number of bytes delivered for the image,
it has reached the size of the file, and both digests were fed these bytes and no others. -/
theorem ota_digest_covers (env : OtaEnv) (hasFetchCb hasFetchCotaCb : Bool) (ops : List OtaOp)
    (op : OtaOp)
    (hok : AllSteps (otaStep env) OtaAdmissible (otaStart hasFetchCb hasFetchCotaCb)
      (ops ++ [op])) :
    let r := ops.foldl (otaStep env) (otaStart hasFetchCb hasFetchCotaCb)
    let r' := otaStep env r op
    r.ota.state ≠ .fetched → r'.ota.state = .fetched → 0 ≤ (otaExec env r.ota op).1 →
      r'.ota.sizeFetched.toNat = r'.delivered.length ∧ r'.ota.sizeFile ≤ r'.ota.sizeFetched ∧
        r'.ota.md5 = some ⟨r'.delivered, false⟩ ∧ r'.ota.sha256 = some ⟨r'.delivered, false⟩ := by
  intro r r' hbefore hafter hret
  rw [allSteps_append] at hok
  have hstart : Covering (otaStart hasFetchCb hasFetchCotaCb) := fun _ => .inl rfl
  have hrun : Covering r := inv_of_allSteps (Covering.step env) ops hstart hok.1
  obtain ⟨hcounted, hfile⟩ := hrun.fetched hok.2.1 hbefore hafter hret
  exact ⟨hcounted.size, hfile, hcounted.md5, hcounted.sha256⟩

/-- A reader of messages that are nothing but the digits of the size of a file. -/
def digitsEnv : OtaEnv where
  jsonValueOf json key :=
    if key = "message" then some [115, 117, 99, 99, 101, 115, 115]
    else if key = "data" then some json
    else if key = "size" then some json
    else some [120]
  md5Text ctx := ctx.fed
  sha256Text ctx := ctx.fed

/-- The upgrade to a firmware whose size has one digit. -/
def upgrade (digit : UInt8) : OtaOp := .message (fun _ => true) [] [digit] .deviceUpgrate

/-- A chunk is fetched. -/
def fetchChunk (buf : Bytes) : OtaOp := .fetchYield true (some buf) fun _ => true

/-- A firmware of three bytes that comes in two chunks. -/
theorem ota_digest_covers_two_chunks :
    let ops := [upgrade 51, fetchChunk [1, 2]]
    let r := ops.foldl (otaStep digitsEnv) (otaStart true true)
    let r' := otaStep digitsEnv r (fetchChunk [3])
    r.ota.state = .fetching ∧ r'.ota.state = .fetched ∧
      r'.ota.sizeFetched.toNat = r'.delivered.length ∧ r'.ota.md5 = some ⟨[1, 2, 3], false⟩ := by
  intro ops r r'
  have hcovers := ota_digest_covers digitsEnv true true ops (fetchChunk [3]) ?_ (by decide)
    (by decide) (by decide)
  · exact ⟨by decide, by decide, hcovers.1, hcovers.2.2.1⟩
  · refine ⟨trivial, ?_, ?_, trivial⟩
    · rintro buf ⟨rfl⟩ -
      exact ⟨fun _ => rfl, by decide⟩
    · rintro buf ⟨rfl⟩ -
      exact ⟨fun hnil => absurd hnil (by decide), by decide⟩

/-- After a firmware of two bytes, the first byte of one of three bytes ends its download, and
the digest covers both images; and a download that is set back after two bytes ends with a
digest of the bytes behind them. -/
theorem ota_digest_covers_broken :
    (let ops := [upgrade 50, fetchChunk [1, 2], upgrade 51]
     let r := ops.foldl (otaStep digitsEnv) (otaStart true true)
     let r' := otaStep digitsEnv r (fetchChunk [5])
     r.ota.state = .fetching ∧ r'.ota.state = .fetched ∧
      (otaExec digitsEnv r.ota (fetchChunk [5])).1 = 1 ∧ r'.delivered = [5] ∧
      r'.ota.sizeFetched = 3 ∧ r'.ota.md5 = some ⟨[1, 2, 5], false⟩) ∧
    (let ops := [upgrade 51, fetchChunk [1, 2], .ioctl .resetFetchedSize ⟨true, 4, true, true, true⟩]
     let r := ops.foldl (otaStep digitsEnv) (otaStart true true)
     let r' := otaStep digitsEnv r (fetchChunk [3, 4, 5])
     r.ota.state = .fetching ∧ r'.ota.state = .fetched ∧ r'.delivered = [1, 2, 3, 4, 5] ∧
      r'.ota.sizeFetched = 3 ∧ r'.ota.md5 = some ⟨[3, 4, 5], false⟩) := by
  decide

end Iotkit.Ota
