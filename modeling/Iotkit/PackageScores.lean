/-
# The scores of packages (`awss_smartconfig.c`, `awss_ht40.c`)

Each package has a score, and each direction a limit for new scores.  They are kept in 8 bits and
are meant to lie between 0 and `score_max + 1`; one callback takes the difference of two sequence
numbers for a score, the other derives the limit from the distance of two positions and lowers a
score without looking at it.
-/
import Iotkit.Ht40
import Iotkit.Smartconfig

namespace Iotkit.Awss

open AccessLog GuardedRun Logged

/-! ## Scores in range -/

/-- A score, or that of a name that is known already. -/
def ScoreOk (score : ℤ) : Prop := 0 ≤ score ∧ score ≤ scoreMax + 1

instance (score : ℤ) : Decidable (ScoreOk score) := inferInstanceAs (Decidable (_ ∧ _))

/-- All scores that are stored and both limits are in range. -/
structure InRange (z : ZconfigData) : Prop where
  pkg : ∀ t n, ScoreOk (z.pkg t n).score
  tmp : ∀ t n, ScoreOk (z.tmpPkg t n).score
  uplimit : ∀ t, (z.data t).scoreUplimit ≤ scoreMax + 1

theorem scoreOk_zero : ScoreOk 0 := ⟨le_rfl, by decide⟩

theorem ScoreOk.ite {c : Prop} [Decidable c] {p q : Package} (hp : ScoreOk p.score)
    (hq : ScoreOk q.score) : ScoreOk (if c then p else q).score := by
  split_ifs
  · exact hp
  · exact hq

theorem inRange_zero : InRange zeroZconfigData where
  pkg := fun _ _ => scoreOk_zero
  tmp := fun _ _ => scoreOk_zero
  uplimit := fun _ => Nat.zero_le _

/-- A score in range is kept by a `char`. -/
theorem toChar_of_scoreOk {score : ℤ} (h : ScoreOk score) : toChar score = score := by
  obtain ⟨h1, h2⟩ := h
  rw [toChar, Int.bmod_def]
  simp only [scoreMax] at h2
  omega

namespace InRange

variable {z : ZconfigData} {t : Bool} {n : ℕ}

section

variable (h : InRange z)
include h

theorem setPkgScore {score : ℤ} (hscore : ScoreOk score) :
    InRange (z.setPkgScore t n score).val where
  pkg := by
    intro t' n'
    refine .ite (?_ : ScoreOk (toChar score)) (h.pkg t' n')
    rw [toChar_of_scoreOk hscore]
    exact hscore
  tmp := h.tmp
  uplimit := h.uplimit

theorem setPkgLen (len : ℕ) :
    InRange (z.setPkgLen t n len).val where
  pkg t' n' := .ite (h.pkg t n) (h.pkg t' n')
  tmp := h.tmp
  uplimit := h.uplimit

theorem setTmpScore {score : ℤ} (hscore : ScoreOk (toChar score)) :
    InRange (z.setTmpScore t n score).val where
  pkg := h.pkg
  tmp t' n' := .ite hscore (h.tmp t' n')
  uplimit := h.uplimit

theorem setTmpLen (len : ℕ) :
    InRange (z.setTmpLen t n len).val where
  pkg := h.pkg
  tmp t' n' := .ite (h.tmp t n) (h.tmp t' n')
  uplimit := h.uplimit

theorem setSide {f : ZcSide → ZcSide} (hf : (f (z.data t)).scoreUplimit ≤ scoreMax + 1) :
    InRange (z.setSide t f) where
  pkg := h.pkg
  tmp := h.tmp
  uplimit := by
    intro t'
    show (if t' = t then f (z.data t') else z.data t').scoreUplimit ≤ scoreMax + 1
    split_ifs with heq
    · rw [heq]
      exact hf
    · exact h.uplimit t'

theorem setState (state : ZcState) : InRange (z.setState t state) := by
  apply h.setSide
  split_ifs
  · exact h.uplimit t
  · exact h.uplimit t

/-- The invariant is about the tables and the limits only. -/
theorem congr {z' : ZconfigData} (hpkg : z'.pkg = z.pkg) (htmp : z'.tmpPkg = z.tmpPkg)
    (hdata : z'.data = z.data) :
    InRange z' where
  pkg := hpkg ▸ h.pkg
  tmp := htmp ▸ h.tmp
  uplimit := hdata ▸ h.uplimit

end

end InRange

/-! ## What is received -/

theorem scoreOk_autoComplete : ScoreOk ssidAutoCompleteScore := ⟨by decide, le_rfl⟩

theorem scoreOk_halved {score : ℤ} (h : ScoreOk score) :
    ScoreOk (if toUInt8 score > 0x60 then 0x60 else (toUInt8 score >>> 1 : ℕ)) := by
  obtain ⟨h1, h2⟩ := h
  split_ifs with hlarge
  · exact ⟨by decide, by decide⟩
  · rw [Nat.shiftRight_eq_div_pow]
    refine ⟨by omega, ?_⟩
    simp only [scoreMax]
    omega

/-- Reading the message keeps the scores in range. -/
theorem keptByReading_inRange : KeptByReading InRange where
  score := fun h _ _ => h.setPkgScore scoreOk_autoComplete
  len := fun h _ _ len => h.setPkgLen len
  disable := fun h => h.congr rfl rfl rfl
  halve := fun h t n => h.setPkgScore (scoreOk_halved (h.pkg t n))
  ssid := fun h _ => h.congr rfl rfl rfl
  zero := inRange_zero

/-! ## Resynchronisation -/

section Sync

variable {z : ZconfigData} {tods : Bool}

/-- The score of a match: between those of packages. -/
def MatchScoreOk (score : ℤ) : Prop := 0 ≤ score ∧ score ≤ scoreMax

/-- One group matches with a score of 32 at most. -/
theorem matchScoreOk_matchLoop (h : InRange z) (emptyMatch : Bool) (i : ℕ) (js : List ℕ) :
    ∀ (found : ℕ) (score : ℤ), MatchScoreOk score →
      (matchLoop z tods emptyMatch i js found score).Yields fun r => MatchScoreOk r.2.1 := by
  induction js with
  | nil => intro found score hscore; exact hscore
  | cons j js ih =>
    intro found score hscore
    have hmin : MatchScoreOk (if score > (z.pkg tods (i + j)).score then
        (z.pkg tods (i + j)).score else score) := by
      split_ifs with hlt
      · exact ⟨(h.pkg tods (i + j)).1, hlt.le.trans hscore.2⟩
      · exact hscore
    have hone : MatchScoreOk 1 := ⟨by decide, by decide⟩
    rw [matchLoop, yields_bind, yields_ite]
    refine ⟨fun _ => ih _ _ hscore, fun _ => ?_⟩
    rw [yields_ite]
    refine ⟨fun _ => ?_, fun _ => ?_⟩
    · rw [yields_bind, yields_ite]
      exact ⟨fun _ => ih _ _ hone, fun _ => ih _ _ hscore⟩
    · rw [yields_bind, yields_ite]
      refine ⟨fun _ => ih _ _ hscore, fun _ => ?_⟩
      rw [yields_bind, yields_ite]
      refine ⟨fun _ => ?_, fun _ => hscore⟩
      rw [yields_bind]
      exact ih _ _ hmin

/-- So does the best of the groups. -/
theorem matchScoreOk_matchGroups (h : InRange z) (emptyMatch : Bool) {best : SyncMatch}
    (hbest : MatchScoreOk best.matchScore) :
    (matchGroups z tods emptyMatch best).Yields fun best => MatchScoreOk best.matchScore := by
  rw [matchGroups]
  simp only [yields_bind]
  apply yields_foldlM
  · intro k _ best hbest
    rw [yields_bind, yields_pure]
    split_ifs
    · exact matchScoreOk_matchLoop h emptyMatch (k * groupNumber) groupIndices 0 scoreMax
        ⟨by decide, le_rfl⟩
    · exact hbest
  · exact hbest

/-- The position that is taken comes with a score in range. -/
theorem finalPos_score {best : SyncMatch} (hbest : MatchScoreOk best.matchScore)
    {emptyMatch : Bool} {guess : Option ℕ} {pos matchEnd : ℕ} {score : ℤ}
    (h : finalPos best emptyMatch guess = some (pos, matchEnd, score)) :
    0 ≤ score ∧ score ≤ 32 := by
  have hmap : ∀ {group : Option ℕ} {last : ℕ} {x : ℤ},
      (group.map fun pos => (pos, last, x)) = some (pos, matchEnd, score) → x = score := by
    intro group last x hx
    obtain ⟨p, -, hp⟩ := Option.map_eq_some_iff.mp hx
    exact congrArg (fun r => r.2.2) hp
  have hcapped : ∃ x : ℤ, (if best.matchScore >
        (if best.maxMatch = 1 then 10 else if best.maxMatch = 2 then 20 else 30) then
        (if best.maxMatch = 1 then 10 else if best.maxMatch = 2 then 20 else 30)
      else best.matchScore) = x ∧ 0 ≤ x ∧ x ≤ 30 := by
    refine ⟨_, rfl, ?_⟩
    have hlow := hbest.1
    split_ifs <;> omega
  obtain ⟨x, hx, hlow, hhigh⟩ := hcapped
  rw [finalPos] at h
  by_cases hguess : guess.isSome ∧ (best.maxMatch = 0 ∨ emptyMatch)
  · rw [if_pos hguess] at h
    rw [← hmap h]
    decide
  rw [if_neg hguess] at h
  by_cases hnone : best.maxMatch = 0
  · rw [if_pos hnone] at h
    cases h
  rw [if_neg hnone] at h
  dsimp only at h
  rw [hx] at h
  cases guess with
  | none =>
    rw [← hmap h]
    omega
  | some p =>
    dsimp only at h
    split_ifs at h
    · have hscore := congrArg (fun r => r.2.2) (Option.some.inj h)
      dsimp only at hscore
      omega
    · rw [← hmap h]
      omega
    · have hscore := congrArg (fun r => r.2.2) (Option.some.inj h)
      dsimp only at hscore
      omega

theorem scoreOk_moved {matchScore tmpScore : ℤ} (hmatch : 0 ≤ matchScore ∧ matchScore ≤ 32)
    (htmp : ScoreOk tmpScore) :
    ScoreOk (if matchScore > tmpScore - 1 then matchScore - (tmpScore - 1) else matchScore) := by
  obtain ⟨h1, h2⟩ := htmp
  rw [ScoreOk]
  simp only [scoreMax]
  split_ifs <;> omega

/-- Moving the packages of the window keeps the scores in range. -/
theorem inRange_movePackages {matchScore : ℤ} (hmatch : 0 ≤ matchScore ∧ matchScore ≤ 32) :
    ∀ (n i j : ℕ) (z : ZconfigData), InRange z →
      (movePackages tods matchScore n i j z).Yields InRange
  | 0, _, _, z, h => h
  | n + 1, i, j, z, h => by
      have hrest := inRange_movePackages hmatch n (i + 1) (j + 1)
      rw [movePackages, yields_ite]
      refine ⟨fun _ => h, fun _ => ?_⟩
      rw [yields_bind, yields_ite]
      refine ⟨fun _ => hrest z h, fun _ => ?_⟩
      rw [yields_bind, yields_ite]
      refine ⟨fun _ => hrest z h, fun _ => ?_⟩
      simp only [yields_bind]
      apply hrest
      have hmoved := (h.setPkgLen (t := tods) (n := i) (z.tmpPkg tods j).len).setPkgScore
        (t := tods) (n := i) (scoreOk_moved hmatch (h.tmp tods j))
      exact hmoved.setSide (hmoved.uplimit tods)

theorem inRange_clearTmp (h : InRange z) : InRange (clearTmp z tods) where
  pkg := h.pkg
  tmp t n := .ite scoreOk_zero (h.tmp t n)
  uplimit := by
    have hside : InRange (z.setSide tods fun d => { d with posUnsync := 0 }) :=
      h.setSide (h.uplimit tods)
    exact hside.uplimit

/-- Finding the position of a window keeps them in range. -/
theorem inRange_tryToSyncPos (h : InRange z) (groupPos : Option ℕ) :
    (tryToSyncPos z tods groupPos).Yields InRange := by
  have hzero : MatchScoreOk (SyncMatch.matchScore ⟨0, none, groupNumber, 0⟩) :=
    ⟨le_rfl, by decide⟩
  have hfirst := @matchScoreOk_matchGroups z tods h false _ hzero
  have hplace : ∀ best : SyncMatch, MatchScoreOk best.matchScore → ∀ emptyMatch guess,
      (placePackages z tods (finalPos best emptyMatch guess)).Yields InRange := by
    intro best hbest emptyMatch guess
    cases hfinal : finalPos best emptyMatch guess with
    | none => exact inRange_clearTmp h
    | some place =>
      obtain ⟨pos, matchEnd, matchScore⟩ := place
      rw [placePackages, yields_bind]
      exact inRange_clearTmp
        (inRange_movePackages (finalPos_score hbest hfinal) matchEnd (pos + 1) 1 z h)
  rw [tryToSyncPos, yields_bind]
  dsimp only
  split_ifs
  · rw [yields_bind, yields_bind]
    exact hplace _ (matchScoreOk_matchGroups h true hfirst) _ _
  · rw [yields_bind, yields_bind]
    exact hplace _ hfirst _ _

end Sync

/-! ## Broadcast frames -/

section Broadcast

variable {z : ZconfigData} {f : BrFrame} {index len pos score : ℕ}

/-- The score of a frame is above the maximum by one at most. -/
theorem getDataScore_le {d : ZcSide} (h : d.scoreUplimit ≤ scoreMax + 1) (snNow indexNow : ℕ) :
    getDataScore d snNow indexNow ≤ scoreMax + 1 := by
  rw [getDataScore]
  dsimp only
  split_ifs
  · decide
  · decide
  · exact (Nat.sub_le _ _).trans h
  · decide

/-- The package is stored already with the highest score, and comes with it again. -/
def AtLimit (z : ZconfigData) (t : Bool) (pos len score : ℕ) : Prop :=
  score = scoreMax + 1 ∧ (z.pkg t pos).len = len ∧ (z.pkg t pos).score = scoreMax + 1

instance (z : ZconfigData) (t : Bool) (pos len score : ℕ) : Decidable (AtLimit z t pos len score) :=
  inferInstanceAs (Decidable (_ ∧ _ ∧ _))

/-- Replacing a package keeps the scores in range. -/
theorem inRange_tryToReplaceSamePos (h : InRange z) (t : Bool) (newLen : ℕ) :
    (tryToReplaceSamePos z t pos newLen).Yields fun r => InRange r.2 := by
  have hlen := h.setPkgLen (t := t) (n := pos) newLen
  simp only [tryToReplaceSamePos, yields_bind, yields_ite, yields_pure, h,
    hlen, implies_true, and_self]

theorem scoreOk_tdiv {score : ℤ} (h : ScoreOk score) : ScoreOk (score.tdiv 2) := by
  obtain ⟨h1, h2⟩ := h
  rw [ScoreOk, Int.tdiv_eq_ediv_of_nonneg h1]
  simp only [scoreMax] at *
  omega

theorem mean_le {uplimit : ℕ} {last : ℤ} (huplimit : uplimit ≤ scoreMax + 1)
    (hlast : ScoreOk last) :
    toUInt8 (((uplimit : ℤ) + last).tdiv 2) ≤ scoreMax + 1 := by
  obtain ⟨h1, h2⟩ := hlast
  rw [toUInt8, Int.tdiv_eq_ediv_of_nonneg (by omega)]
  simp only [scoreMax] at *
  omega

/-- A package is saved with a score in range where the limit is not met. -/
theorem inRange_savePackage (h : InRange z) (t : Bool) (hscore : score ≤ scoreMax + 1)
    (hlimit : ¬ AtLimit z t pos len score) :
    (savePackage z f t pos len score).Yields fun r => InRange r.2 := by
  have hlast := h.pkg t pos
  rw [savePackage, yields_bind, yields_bind, yields_ite]
  refine ⟨fun _ => ?_, fun _ => ?_⟩
  · have hsaved : InRange (z.setPkgScore t pos score).val :=
      h.setPkgScore ⟨by omega, by exact_mod_cast hscore⟩
    rw [yields_bind, yields_ite]
    refine ⟨fun _ => hsaved, fun _ => ?_⟩
    rw [yields_bind, yields_pure]
    dsimp only
    apply (hsaved.setPkgLen len).setSide
    exact hsaved.uplimit t
  · rw [yields_ite]
    refine ⟨fun heq => ?_, fun _ => ?_⟩
    · rw [yields_ite]
      refine ⟨fun hlen => ?_, fun _ => ?_⟩
      · rw [yields_bind]
        apply h.setPkgScore
        have heq' : (score : ℤ) = (z.pkg t pos).score := heq
        have hne : (z.pkg t pos).score ≠ scoreMax + 1 := by
          intro hmax
          rw [hmax] at heq'
          exact hlimit ⟨by exact_mod_cast heq', hlen, hmax⟩
        exact ⟨by linarith [hlast.1], by have := hlast.2; omega⟩
      · have hreplaced := @inRange_tryToReplaceSamePos z pos h t len
        rw [yields_bind, yields_ite]
        refine ⟨fun _ => hreplaced, fun _ => ?_⟩
        rw [yields_bind]
        exact InRange.setPkgScore hreplaced (scoreOk_tdiv hlast)
    · rw [yields_ite]
      refine ⟨fun _ => ?_, fun _ => h⟩
      rw [yields_ite]
      refine ⟨fun _ => ?_, fun _ => ?_⟩
      · rw [yields_ite]
        refine ⟨fun _ => h, fun _ => ?_⟩
        rw [yields_pure]
        dsimp only
        apply h.setSide
        exact h.uplimit t
      · rw [yields_ite]
        refine ⟨fun _ => ?_, fun _ => h⟩
        rw [yields_pure]
        dsimp only
        apply h.setSide
        exact mean_le (h.uplimit t) hlast

theorem pkg_savePackage {t t' : Bool} (ht : t' ≠ t) (n : ℕ) :
    (savePackage z f t pos len score).Yields fun r => r.2.pkg t' n = z.pkg t' n := by
  have hscore (z' : ZconfigData) (x : ℤ) :
      (z'.setPkgScore t pos x).val.pkg t' n = z'.pkg t' n := if_neg fun h => ht h.1
  have hlen (z' : ZconfigData) (x : ℕ) :
      (z'.setPkgLen t pos x).val.pkg t' n = z'.pkg t' n := if_neg fun h => ht h.1
  have hside (z' : ZconfigData) (g : ZcSide → ZcSide) :
      (z'.setSide t g).pkg t' n = z'.pkg t' n := rfl
  have hreplaced : (tryToReplaceSamePos z t pos len).val.2.pkg t' n = z.pkg t' n := by
    rw [tryToReplaceSamePos]
    simp only [val_bind]
    split_ifs
    · exact hlen z len
    · rfl
  simp only [savePackage, yields_bind, yields_ite, yields_pure, hscore, hlen,
    hside, hreplaced, implies_true, and_self]

/-- A frame that leaves for `pos_unsync` has set it for its direction. -/
theorem posUnsync_savePackage (t : Bool) :
    (savePackage z f t pos len score).Yields fun r =>
      r.1 = true → (r.2.data f.tods).posUnsync = 1 := by
  have hset (ht : t = f.tods) :
      ((z.setSide t fun d => { d with posUnsync := 1 }).data f.tods).posUnsync = 1 := by
    simp [ZconfigData.setSide, ht]
  simp only [savePackage, yields_bind, yields_ite, yields_pure,
    Bool.false_eq_true, false_imp_iff, implies_true, true_imp_iff, and_true, true_and]
  intro _ _ ht _ _
  exact hset ht

theorem inRange_updateSn (h : InRange z) : InRange (updateSn z f index len) := by
  apply h.setSide
  exact h.uplimit f.tods

/-- Before the synchronisation the scores stay in range. -/
theorem inRange_unsyncPart (h : InRange z)
    (hdiff : (z.data f.tods).posUnsync ≠ 1 →
      ScoreOk (toChar ((f.sn : ℤ) - (z.data f.tods).prevSn))) :
    (unsyncPart z f index len).Yields fun r => InRange r.2 := by
  have hscore : ScoreOk (toChar (if (z.data f.tods).posUnsync = 1 then 1
      else (f.sn : ℤ) - (z.data f.tods).prevSn)) := by
    split_ifs with hone
    · exact ⟨by decide, by decide⟩
    · exact hdiff hone
  have htmp := (h.setTmpLen (t := f.tods) (n := index) len).setTmpScore (t := f.tods) (n := index)
    hscore
  simp only [unsyncPart, yields_bind, yields_pure]
  apply inRange_updateSn
  apply htmp.setSide
  exact h.uplimit f.tods

theorem inRange_replaceDone (h : InRange z) (f : BrFrame) :
    InRange { z.setSide f.tods fun d => { d with replace := false } with bssid := f.bssid } := by
  have hside : InRange (z.setSide f.tods fun d => { d with replace := false }) := by
    apply h.setSide
    exact h.uplimit f.tods
  exact hside.congr rfl rfl rfl

theorem inRange_recvCompletedPart (h : InRange z) (pkgType : PkgType) :
    (recvCompletedPart z f pkgType index len).Yields fun r => InRange r.2 := by
  have hmax : InRange (z.setSide f.tods fun d =>
      { d with maxPos := if d.maxPos < d.curPos then d.curPos else d.maxPos }) := by
    apply h.setSide
    exact h.uplimit f.tods
  have hreceived := keptByReading_inRange.zconfigRecvCompleted hmax f.tods f.env.encodeMemory
  rw [recvCompletedPart, yields_ite]
  refine ⟨fun _ => inRange_updateSn hmax, fun _ => ?_⟩
  rw [yields_bind, yields_ite]
  refine ⟨fun _ => inRange_updateSn hreceived, fun _ => ?_⟩
  have hgot := keptByReading_inRange.zconfigGetSsidPasswd (inRange_replaceDone hreceived f) f.tods f.env
  rw [yields_bind, yields_ite]
  exact ⟨fun _ => InRange.setState hgot _, fun _ => inRange_updateSn hgot⟩

/-- A package that is saved for both directions. -/
theorem inRange_savePackages (h : InRange z) (hscore : score ≤ scoreMax + 1)
    (hlimit : ∀ t, ¬ AtLimit z t pos len score) :
    (do
      let fromds ← savePackage z f false pos len score
      if fromds.1 then unsyncPart fromds.2 f index len
      else do
        let tods ← savePackage fromds.2 f true pos len score
        if tods.1 then unsyncPart tods.2 f index len
        else recvCompletedPart tods.2 f .dataFrame index len :
      Logged TableUse (PkgType × ZconfigData)).Yields fun r => InRange r.2 := by
  have hfromds : InRange (savePackage z f false pos len score).val.2 :=
    inRange_savePackage h false hscore (hlimit false)
  have hkept : (savePackage z f false pos len score).val.2.pkg true pos = z.pkg true pos :=
    pkg_savePackage (by decide) pos
  have hlimit' : ¬ AtLimit (savePackage z f false pos len score).val.2 true pos len score := by
    rw [AtLimit, hkept]
    exact hlimit true
  have htods := inRange_savePackage (f := f) hfromds true hscore hlimit'
  rw [yields_bind, yields_ite]
  refine ⟨fun hleft => ?_, fun _ => ?_⟩
  · apply inRange_unsyncPart hfromds
    exact fun hne => absurd (posUnsync_savePackage false hleft) hne
  · rw [yields_bind, yields_ite]
    refine ⟨fun hleft => ?_, fun _ => inRange_recvCompletedPart htods _⟩
    apply inRange_unsyncPart htods
    exact fun hne => absurd (posUnsync_savePackage true hleft) hne

/-- So they do behind it. -/
theorem inRange_syncedData (h : InRange z)
    (hlimit : ∀ t, ¬ AtLimit z t ((z.data f.tods).groupPos + getDataIndex len) len
      (getDataScore (z.data f.tods) f.sn
        (toUInt8 ((z.data f.tods).groupPos + getDataIndex len : ℕ)))) :
    (syncedData z f len).Yields fun r => InRange r.2 := by
  obtain ⟨pos, hpos⟩ : ∃ pos, (z.data f.tods).groupPos + getDataIndex len = pos := ⟨_, rfl⟩
  obtain ⟨score, hscore⟩ : ∃ score, getDataScore (z.data f.tods) f.sn (toUInt8 pos) = score :=
    ⟨_, rfl⟩
  have hle : score ≤ scoreMax + 1 := hscore ▸ getDataScore_le (h.uplimit f.tods) _ _
  rw [hpos, hscore] at hlimit
  rw [syncedData]
  rw [hpos, hscore, yields_ite]
  refine ⟨fun _ => inRange_updateSn h, fun _ => ?_⟩
  have hlimited : InRange (z.setSide f.tods fun d =>
      { d with
        scoreUplimit := if d.scoreUplimit > score then score else d.scoreUplimit
        groupSn := f.sn }) := by
    apply h.setSide
    split_ifs
    · exact hle
    · exact h.uplimit f.tods
  rw [yields_ite]
  refine ⟨fun _ => hlimited, fun _ => ?_⟩
  have hcur : InRange ((z.setSide f.tods fun d =>
      { d with
        scoreUplimit := if d.scoreUplimit > score then score else d.scoreUplimit
        groupSn := f.sn }).setSide f.tods fun d => { d with curPos := pos }) := by
    apply hlimited.setSide
    exact hlimited.uplimit f.tods
  exact inRange_savePackages hcur hle hlimit

/-! ### The frames that keep the scores in range -/

/-- A data frame keeps the scores in range: it loses the position, or comes with a score that is
not at its limit yet, or waits with a difference of sequence numbers that is a score. -/
def DataFits (z : ZconfigData) (f : BrFrame) (len : ℕ) (timeout : Bool) : Prop :=
  let d := z.data f.tods
  let pos := d.groupPos + getDataIndex len
  Rollback d len timeout ∨
    if d.posUnsync = 0 then ∀ t, ¬ AtLimit z t pos len (getDataScore d f.sn (toUInt8 pos))
    else d.posUnsync = 1 ∨ snMinus f.sn d.prevSn ≤ scoreMax + 1

instance (z : ZconfigData) (f : BrFrame) (len : ℕ) (timeout : Bool) :
    Decidable (DataFits z f len timeout) :=
  inferInstanceAs (Decidable (_ ∨ _))

/-- The same for what a frame is to a direction that is locked. -/
def LockedFits (z : ZconfigData) (f : BrFrame) : LockedFrame → Prop
  | .data len timeout => DataFits z f len timeout
  | .drop | .stale | .group _ => True

instance (z : ZconfigData) (f : BrFrame) : (frame : LockedFrame) → Decidable (LockedFits z f frame)
  | .data len timeout => inferInstanceAs (Decidable (DataFits z f len timeout))
  | .drop | .stale | .group _ => instDecidableTrue

def BrFits (z : ZconfigData) (f : BrFrame) : Prop :=
  (z.data f.tods).stateMachine = .chnLockedByBr → LockedFits z f (lockedFrame z f)

instance (z : ZconfigData) (f : BrFrame) : Decidable (BrFits z f) :=
  inferInstanceAs (Decidable (_ → _))

theorem touchRetry_eq (z : ZconfigData) (f : BrFrame) :
    touchRetry z f = z ∨
      touchRetry z f = z.setSide f.tods fun d => { d with timestamp := f.timestamp } := by
  rw [touchRetry]
  split_ifs
  · exact .inr rfl
  · exact .inl rfl

theorem inRange_touchRetry (h : InRange z) (f : BrFrame) : InRange (touchRetry z f) := by
  rcases touchRetry_eq z f with heq | heq
  · rw [heq]
    exact h
  · rw [heq]
    apply h.setSide
    exact h.uplimit f.tods

theorem dataFits_touchRetry (z : ZconfigData) (f : BrFrame) (len : ℕ) (timeout : Bool) :
    DataFits (touchRetry z f) f len timeout ↔ DataFits z f len timeout := by
  rcases touchRetry_eq z f with heq | heq
  · rw [heq]
  · rw [heq]
    simp only [DataFits, Rollback, AtLimit, getDataScore, ZconfigData.setSide, if_true]

/-- A difference of sequence numbers that is a score is not changed by a `char`. -/
theorem toChar_snMinus {a b : ℕ} (h : snMinus a b ≤ scoreMax + 1) :
    toChar ((a : ℤ) - b) = snMinus a b := by
  rw [snMinus] at h ⊢
  rw [toChar, Int.bmod_def]
  simp only [scoreMax] at h
  omega

section

variable (h : InRange z)
include h

/-- A rollback keeps them in range. -/
theorem inRange_rollbackPart :
    (rollbackPart z f).Yields fun z => InRange z ∧ (z.data f.tods).posUnsync = 1 := by
  have hstart (z' : ZconfigData) (hz' : InRange z') :
      InRange (z'.setSide f.tods fun d => { d with posUnsync := 1 }) ∧
        ((z'.setSide f.tods fun d => { d with posUnsync := 1 }).data f.tods).posUnsync = 1 := by
    refine ⟨?_, by simp [ZconfigData.setSide]⟩
    apply hz'.setSide
    exact hz'.uplimit f.tods
  rw [rollbackPart, yields_ite]
  refine ⟨fun _ => ?_, fun _ => ?_⟩
  · rw [yields_bind]
    exact hstart _ (inRange_tryToSyncPos h none)
  · rw [yields_bind]
    exact hstart z h

/-- A data frame keeps the scores in range. -/
theorem inRange_dataPart {timeout : Bool} (hfits : DataFits z f len timeout) :
    (dataPart z f len timeout).Yields fun r => InRange r.2 := by
  rw [dataPart, yields_ite]
  refine ⟨fun _ => ?_, fun hforward => ?_⟩
  · obtain ⟨hlost, hone⟩ := inRange_rollbackPart (f := f) h
    rw [yields_bind]
    apply inRange_unsyncPart hlost
    exact fun hne => absurd hone hne
  · have hfits' := hfits.resolve_left hforward
    rw [yields_ite]
    refine ⟨fun hunsync => ?_, fun hsync => ?_⟩
    · rw [if_neg hunsync] at hfits'
      apply inRange_unsyncPart h
      intro hne
      have hle := hfits'.resolve_left hne
      rw [toChar_snMinus hle]
      exact ⟨by omega, by exact_mod_cast hle⟩
    · rw [if_pos (not_not.mp hsync)] at hfits'
      exact inRange_syncedData h hfits'

/-- A group frame keeps the scores in range. -/
theorem inRange_groupPart : (groupPart z f len).Yields fun r => InRange r.2 := by
  have hreceived (z' : ZconfigData) (hz' : InRange z') :
      (recvCompletedPart ((z'.setSide f.tods fun d =>
        { d with
          curPos := getGroupIndex len
          groupPos := getGroupIndex len
          groupSn := f.sn
          scoreUplimit := scoreMax }).setState f.tods .chnLockedByBr) f .startFrame 0 len).Yields
        fun r => InRange r.2 := by
    apply inRange_recvCompletedPart
    apply InRange.setState
    apply hz'.setSide
    exact Nat.le_succ scoreMax
  rw [groupPart, yields_ite]
  refine ⟨fun _ => ?_, fun _ => ?_⟩
  · rw [yields_bind]
    exact hreceived _ (inRange_tryToSyncPos h _)
  · rw [yields_bind]
    exact hreceived z h

theorem inRange_hintAddresses {z' : ZconfigData} (hz : hintAddresses z f = some z') :
    InRange z' := by
  rw [hintAddresses] at hz
  split_ifs at hz
  · rw [← Option.some.inj hz]
    exact h.congr rfl rfl rfl
  · rw [← Option.some.inj hz]
    exact h
  · rw [← Option.some.inj hz]
    have hside : InRange (z.setSide false fun d =>
        if d.stateMachine = .chnLockedByBr then { d with stateMachine := .chnScanning }
        else d) := by
      apply h.setSide
      split_ifs
      · exact h.uplimit false
      · exact h.uplimit false
    exact hside.congr rfl rfl rfl

theorem inRange_isHintFrame {z' : ZconfigData} (hz : isHintFrame z f = some z') : InRange z' := by
  rw [isHintFrame] at hz
  split_ifs at hz
  cases hfind : zconfigHintFrame.findIdx? fun hint => hint + zconfigFixedOffset f.encry = f.len with
  | none =>
    rw [hfind] at hz
    cases hz
  | some i =>
    rw [hfind] at hz
    obtain ⟨locked, hlocked, rfl⟩ := Option.map_eq_some_iff.mp hz
    have hside : InRange (locked.setSide f.tods fun d =>
        { d with
          frameOffset := zconfigFixedOffset f.encry
          groupPos := i * groupNumber
          curPos := i * groupNumber
          groupSn := f.sn
          prevSn := f.sn
          scoreUplimit := scoreMax }) := by
      apply (inRange_hintAddresses h hlocked).setSide
      exact Nat.le_succ scoreMax
    exact hside.congr rfl rfl rfl

/-- **A frame that fits keeps the scores in range.** -/
theorem inRange_smartconfigStep (hfits : BrFits z f) : InRange (smartconfigStep z f) := by
  rw [smartconfigStep, awssRecvCallbackSmartconfig]
  cases hstate : (z.data f.tods).stateMachine with
  | chnLockedByP2p | chnScanning =>
    cases hint : isHintFrame z f with
    | none => exact inRange_updateSn h
    | some z' => exact inRange_updateSn (InRange.setState (inRange_isHintFrame h hint) _)
  | chnLockedByBr =>
    have hfits' := hfits hstate
    cases hframe : lockedFrame z f with
    | drop => exact inRange_touchRetry h f
    | stale => exact inRange_updateSn h
    | data len timeout =>
      rw [hframe] at hfits'
      exact inRange_dataPart (inRange_touchRetry h f)
        ((dataFits_touchRetry z f len timeout).mpr hfits')
    | group len => exact inRange_groupPart (inRange_touchRetry h f)
  | gotBeacon | rcvInProgress | rcvComplete | rcvDone => exact inRange_updateSn h

end

/-- A package that waits gets the difference of the sequence numbers, in full. -/
def WaitsInFull (z : ZconfigData) (f : BrFrame) : Prop :=
  let d := z.data f.tods
  d.stateMachine = .chnLockedByBr →
    match lockedFrame z f with
    | .data len timeout =>
      ¬ Rollback d len timeout → d.posUnsync ≠ 0 → d.posUnsync ≠ 1 →
        ((smartconfigStep z f).tmpPkg f.tods (getDataIndex len)).score = snMinus f.sn d.prevSn
    | _ => True

theorem tmpScore_unsyncPart :
    (unsyncPart z f index len).Yields fun r =>
      (r.2.tmpPkg f.tods index).score = toChar (if (z.data f.tods).posUnsync = 1 then 1
        else (f.sn : ℤ) - (z.data f.tods).prevSn) := by
  simp only [unsyncPart, yields_bind, yields_pure]
  simp [updateSn, ZconfigData.setSide, ZconfigData.setTmpScore, ZconfigData.setTmp]

theorem waitsInFull_of_fits (hfits : BrFits z f) : WaitsInFull z f := by
  intro hstate
  have hfits' := hfits hstate
  rw [smartconfigStep, awssRecvCallbackSmartconfig, hstate]
  cases hframe : lockedFrame z f with
  | drop | stale | group => trivial
  | data len timeout =>
    rw [hframe] at hfits'
    intro hforward hunsync hmore
    have hle : snMinus f.sn (z.data f.tods).prevSn ≤ scoreMax + 1 := by
      have hwaits := hfits'.resolve_left hforward
      rw [if_neg hunsync] at hwaits
      exact hwaits.resolve_left hmore
    obtain ⟨hback, hsame, -⟩ := touchRetry_spec z f
    have hprev : ((touchRetry z f).data f.tods).prevSn = (z.data f.tods).prevSn := by
      rcases touchRetry_eq z f with heq | heq
      · rw [heq]
      · rw [heq]
        simp [ZconfigData.setSide]
    have hscore := @tmpScore_unsyncPart (touchRetry z f) f (getDataIndex len) len
    rw [Logged.Yields, hsame, if_neg hmore, hprev, toChar_snMinus hle] at hscore
    dsimp only
    rw [dataPart, if_neg (mt (hback len timeout).mp hforward), hsame, if_pos hunsync]
    exact hscore

end Broadcast

/-! ## HT control frames -/

section HtControl

variable {s : Ht40} {f : HtFrame}

/-- A package that is saved keeps the scores in range: its own is one, and so is that which the
package has after it comes with the score that is stored. -/
def Ht40.SaveFits (s : Ht40) (pos len : ℕ) : Prop :=
  let last := s.zconfigData.pkg true pos
  ScoreOk (s.dataScore pos) ∧
    (s.dataScore pos = last.score →
      if last.len = len then last.score ≤ scoreMax else 1 ≤ last.score)

instance (s : Ht40) (pos len : ℕ) : Decidable (s.SaveFits pos len) :=
  inferInstanceAs (Decidable (_ ∧ _))

/-- The receiver takes the frame as that of the next group, right behind the current position. -/
def Ht40.EndsGroup (s : Ht40) (f : HtFrame) : Prop :=
  let len := f.dataLen - ieee80211MinHdrlen - s.side.frameOffset
  s.Accepts f ∧ (isStartFrame len = true ∨ isGroupFrame len = true) ∧
    (getGroupIndex len = 0 ∨ getGroupIndex len = s.side.groupPos + 8) ∧
    s.side.curPos + 1 = getGroupIndex len

instance (s : Ht40) (f : HtFrame) : Decidable (s.EndsGroup f) :=
  inferInstanceAs (Decidable (_ ∧ _ ∧ _ ∧ _))

instance (s : Ht40) (f : HtFrame) : Decidable (s.Takes f) :=
  inferInstanceAs (Decidable ((_ ∧ _) ∧ _ ∧ _ ∧ _ ∧ _))

/-- The data frame does not belong to the package of the current position. -/
def Ht40.Differs (s : Ht40) (f : HtFrame) : Prop :=
  s.pos f = s.side.curPos ∧
    f.dataLen - ieee80211MinHdrlen - s.side.frameOffset ≠ (s.zconfigData.pkg true (s.pos f)).len

instance (s : Ht40) (f : HtFrame) : Decidable (s.Differs f) := inferInstanceAs (Decidable (_ ∧ _))

/-- A data frame that is taken keeps the scores in range: it lowers that of the package that it
differs from, or is saved. -/
def Ht40.DataFits (s : Ht40) (f : HtFrame) : Prop :=
  (s.Differs f → 1 ≤ (s.zconfigData.pkg true (s.pos f)).score) ∧
    (¬ s.Differs f →
      s.SaveFits (s.pos f) (f.dataLen - ieee80211MinHdrlen - s.side.frameOffset))

instance (s : Ht40) (f : HtFrame) : Decidable (s.DataFits f) := inferInstanceAs (Decidable (_ ∧ _))

structure HtFits (s : Ht40) (f : HtFrame) : Prop where
  data : s.Takes f → s.DataFits f
  group : s.EndsGroup f → (s.zconfigData.pkg true s.side.curPos).score ≤ scoreMax

theorem htFits_iff (s : Ht40) (f : HtFrame) :
    ((s.Takes f → s.DataFits f) ∧
      (s.EndsGroup f → (s.zconfigData.pkg true s.side.curPos).score ≤ scoreMax)) ↔ HtFits s f :=
  ⟨fun h => ⟨h.1, h.2⟩, fun h => ⟨h.data, h.group⟩⟩

instance (s : Ht40) (f : HtFrame) : Decidable (HtFits s f) := decidable_of_iff _ (htFits_iff s f)

theorem toUInt8_of_scoreOk {score : ℤ} (h : ScoreOk score) : (toUInt8 score : ℤ) = score := by
  obtain ⟨h1, h2⟩ := h
  rw [toUInt8]
  simp only [scoreMax] at h2
  omega

theorem keptByHt40_inRange : KeptByHt40 InRange where
  toKeptByReading := keptByReading_inRange
  state := fun h => h.setState
  clear := fun h => h.setSide (h.uplimit true)
  offset := fun h _ => h.setSide (h.uplimit true)
  group := by
    intro z h len _
    apply h.setSide
    show scoreMid ≤ scoreMax + 1
    decide

/-- The HT40 receiver saves its packages in range. -/
theorem inRange_ht40SavePackage (h : InRange s.zconfigData) {pos len : ℕ}
    (hfits : s.SaveFits pos len) :
    (ht40SavePackage s f pos len).Yields fun r => InRange r.2.zconfigData := by
  obtain ⟨hscore, hequal⟩ := hfits
  have hstored := toUInt8_of_scoreOk hscore
  have hlast := h.pkg true pos
  obtain ⟨score, heq⟩ : ∃ score, toUInt8 (s.dataScore pos) = score := ⟨_, rfl⟩
  rw [heq] at hstored
  rw [← hstored] at hscore hequal
  refine keptByHt40_inRange.savePackage h heq (h.setPkgScore hscore)
    (fun hsame => h.setPkgScore ?_) fun z hz replace => hz.setSide ?_
  · have hbound := hequal hsame
    obtain ⟨hlow, hhigh⟩ := hlast
    split_ifs with hlen
    · rw [if_pos hlen] at hbound
      exact ⟨by omega, by omega⟩
    · rw [if_neg hlen] at hbound
      exact ⟨by omega, by omega⟩
  · exact_mod_cast hscore.2

theorem inRange_ht40DataFrame (h : InRange s.zconfigData) (hfits : HtFits s f)
    (hdata : s.IsData f) (hacc : s.Accepts f) :
    (ht40DataFrame s f (f.dataLen - ieee80211MinHdrlen - s.side.frameOffset)).Yields fun r =>
      InRange r.2.zconfigData := by
  have hlast := h.pkg true (s.pos f)
  refine ht40DataFrame_keeps h hdata hacc (fun htakes hcur hne => h.setPkgScore ?_)
    fun htakes hequal => ?_
  · have hlowered := (hfits.data htakes).1 ⟨hcur, hne⟩
    obtain ⟨hlow, hhigh⟩ := hlast
    exact ⟨by omega, by omega⟩
  · exact inRange_ht40SavePackage h ((hfits.data htakes).2 fun hdiffers =>
      hdiffers.2 (hequal hdiffers.1))

theorem inRange_ht40GroupFrame (h : InRange s.zconfigData) (hfits : HtFits s f)
    (hacc : s.Accepts f)
    (hlen : isStartFrame (f.dataLen - ieee80211MinHdrlen - s.side.frameOffset) = true ∨
      isGroupFrame (f.dataLen - ieee80211MinHdrlen - s.side.frameOffset) = true) :
    (ht40GroupFrame s f (f.dataLen - ieee80211MinHdrlen - s.side.frameOffset)).Yields fun r =>
      InRange r.2.zconfigData := by
  refine keptByHt40_inRange.groupFrame h hlen fun hnext hcur => h.setPkgScore ?_
  have hlow := (h.pkg true s.side.curPos).1
  have hhigh := hfits.group ⟨hacc, hlen, hnext, hcur⟩
  exact ⟨by omega, by omega⟩

/-- **A frame that fits keeps the scores in range.** -/
theorem inRange_ht40Step (h : InRange s.zconfigData) (hfits : HtFits s f) :
    InRange (ht40Step s f).zconfigData :=
  keptByHt40_inRange.step h (inRange_ht40DataFrame h hfits) (inRange_ht40GroupFrame h hfits)

end HtControl

/-! ## Runs of both -/

/-- A frame for one of the two callbacks. -/
inductive RecvFrame where
  | br (f : BrFrame)
  | ht (f : HtFrame)

/-- The receiver after a frame: the callbacks share its data. -/
def recvStep (s : Ht40) : RecvFrame → Ht40
  | .br f => { s with zconfigData := smartconfigStep s.zconfigData f }
  | .ht f => ht40Step s f

def RecvFits (s : Ht40) : RecvFrame → Prop
  | .br f => BrFits s.zconfigData f
  | .ht f => HtFits s f

/-- What is asked of a step: that the scores stay in range, and that no difference of sequence
numbers is cut off. -/
structure ScoresKept (s : Ht40) (frame : RecvFrame) : Prop where
  inRange : InRange (recvStep s frame).zconfigData
  inFull : ∀ f, frame = .br f → WaitsInFull s.zconfigData f

instance : (s : Ht40) → (frame : RecvFrame) → Decidable (RecvFits s frame)
  | s, .br f => inferInstanceAs (Decidable (BrFits s.zconfigData f))
  | s, .ht f => inferInstanceAs (Decidable (HtFits s f))

/-- A frame of either receiver keeps the scores in range. -/
theorem inRange_recvStep {s : Ht40} {frame : RecvFrame} (h : InRange s.zconfigData)
    (hfits : RecvFits s frame) : InRange (recvStep s frame).zconfigData := by
  cases frame with
  | br f => exact inRange_smartconfigStep h hfits
  | ht f => exact inRange_ht40Step h hfits

theorem scoresKept_of_fits {s : Ht40} {frame : RecvFrame} (h : InRange s.zconfigData)
    (hfits : RecvFits s frame) : ScoresKept s frame where
  inRange := inRange_recvStep h hfits
  inFull := by
    intro f hf
    subst hf
    exact waitsInFull_of_fits hfits

/-- **Package scores stay in range** in every run of frames that fit. -/
theorem package_scores_in_range (frames : List RecvFrame)
    (hfits : AllSteps recvStep RecvFits ht40Init frames) :
    AllSteps recvStep ScoresKept ht40Init frames := by
  have hiff (s : Ht40) (frame : RecvFrame) (h : InRange s.zconfigData) :
      (RecvFits s frame ∧ ScoresKept s frame ↔ RecvFits s frame) :=
    and_iff_left_of_imp (scoresKept_of_fits h)
  have hboth := (allSteps_congr hiff (fun s frame h => inRange_recvStep h) inRange_zero frames).mpr
    hfits
  exact hboth.mono fun s frame h => h.2

/-- A broadcast frame, or one that the other callback sees. -/
theorem package_scores_in_range_short :
    let br (sn len : ℕ) : RecvFrame :=
      .br ⟨fun _ => 1, brMac, fun _ => 2, true, sn, len + 36, 0, 0, none, ⟨true, true, [], true⟩⟩
    let ht (len : ℕ) : RecvFrame :=
      .ht ⟨-50, 7, 24 + 36 + len, 6, 0, 0, ⟨true, true, [], true⟩⟩
    let frames := [br 10 startFrame, br 11 0x178, ht startFrame, ht startFrame, ht 0x178]
    AllSteps recvStep RecvFits ht40Init frames ∧ AllSteps recvStep ScoresKept ht40Init frames := by
  intro br ht frames
  have hfits : AllSteps recvStep RecvFits ht40Init frames := by decide +kernel
  exact ⟨hfits, package_scores_in_range frames hfits⟩

/-- A data frame that comes again and again after two hints raises the limit past the highest
score, and a package that waits gets a difference of sequence numbers that is negative as a
`char`. -/
theorem package_scores_in_range_broken :
    let br (sn len : ℕ) : RecvFrame :=
      .br ⟨fun _ => 1, brMac, fun _ => 2, true, sn, len + 36, 0, 0, none, ⟨true, true, [], true⟩⟩
    let ht (len : ℕ) : RecvFrame :=
      .ht ⟨-50, 7, 24 + 36 + len, 6, 0, 0, ⟨true, true, [], true⟩⟩
    ¬ AllSteps recvStep ScoresKept ht40Init
        ([ht startFrame, ht startFrame] ++ List.replicate 52 (ht 0x178) ++ [ht 0x178]) ∧
      ¬ AllSteps recvStep ScoresKept ht40Init
        ([br 10 startFrame, br 11 0x278, br 12 0x1f8] ++ [br 162 0x278]) := by
  intro br ht
  constructor
  · intro hall
    obtain ⟨-, hlast⟩ := (allSteps_append _ _ _).mp hall
    have hle := hlast.1.inRange.uplimit true
    exact absurd hle (by decide +kernel)
  · intro hall
    obtain ⟨-, hlast⟩ := (allSteps_append _ _ _).mp hall
    have hlow := (hlast.1.inRange.tmp true 3).1
    exact absurd hlow (by decide +kernel)

end Iotkit.Awss
