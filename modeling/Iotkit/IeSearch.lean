/-
# The search for an information element (`zconfig_ieee80211.c`)

What stands behind the header of a frame is a row of information elements: an id, the number of
data bytes and the data.  `cfg80211_find_ie` looks for the first element with an id, and
`cfg80211_find_vendor_ie` for the first vendor element with an OUI and a type.  The bytes come
from the air, so the row may be cut off anywhere.
-/
import Iotkit.ElementRow
import Iotkit.ZeroConfigRoundTrip

open ElementRow

namespace Iotkit.ZeroConfig

open List

variable {eid ouiType id n : UInt8} {oui fuel k : ℕ} {buf body e r : Bytes}
  {es : List Bytes}

/-! ## Rows of information elements -/

/-- An information element: its id, the number of its data bytes, and these. -/
def IsIe (e : Bytes) : Prop :=
  ∃ id n body, e = id :: n :: body ∧ n.toNat = body.length

/-- An element is laid out by its own length. -/
theorem IsIe.eq_of_append {e f r s : Bytes} (he : IsIe e) (hf : IsIe f)
    (h : e ++ r = f ++ s) : e = f := by
  obtain ⟨id, n, body, rfl, hn⟩ := he
  obtain ⟨id', n', body', rfl, hn'⟩ := hf
  simp only [cons_append, List.cons.injEq] at h
  obtain ⟨rfl, rfl, h⟩ := h
  rw [(append_inj h (hn.symm.trans hn')).1]

/-- An element is not empty. -/
theorem IsIe.ne_nil {e : Bytes} (he : IsIe e) : e ≠ [] := by
  obtain ⟨id, n, body, rfl, -⟩ := he
  exact cons_ne_nil _ _

/-- The information elements as the elements of a row. -/
def ieFormat : Format UInt8 where
  IsElement := IsIe
  ne_nil := IsIe.ne_nil
  eq_of_append := IsIe.eq_of_append

/-- The element has the id. -/
def HasId (eid : UInt8) (e : Bytes) : Prop :=
  e.getD 0 0 = eid

/-- The element is a vendor element with OUI and type, and these are the given ones. -/
def HasOui (oui : ℕ) (ouiType : UInt8) (e : Bytes) : Prop :=
  HasId wlanEidVendorSpecific e ∧ 6 ≤ e.length ∧ vendorOui e = oui ∧ e.getD 5 0 = ouiType

/-- What a search is to answer: the first whole element with the property, as the bytes from it
on and their number, or nothing. -/
def Answers (P : Bytes → Prop) (buf : Bytes) (found : Option (Bytes × ℤ)) : Prop :=
  (∀ k, ieFormat.FirstAt P buf k → found = some (buf.drop k, (buf.length : ℤ) - k)) ∧
    ((∀ k, ¬ ieFormat.FirstAt P buf k) → found = none)

/-- The buffer is a row of whole elements, none of which has the id, and the last one has no
data. -/
def EndsEmpty (eid : UInt8) (buf : Bytes) : Prop :=
  ∃ es id, ieFormat.Without (HasId eid) (es ++ [[id, 0]]) ∧ buf = (es ++ [[id, 0]]).flatten

/-- At the front of a buffer no element is whole if and only if its data, or the two bytes of its
header, are cut off. -/
theorem truncated_cons_iff :
    ieFormat.Truncated (id :: n :: body) ↔ body.length < n.toNat := by
  constructor
  · intro h
    by_contra hlen
    apply h (id :: n :: body.take n.toNat) (body.drop n.toNat)
      ⟨id, n, _, rfl, by rw [length_take]; omega⟩
    rw [cons_append, cons_append, take_append_drop]
  · rintro hlen e r ⟨id', n', body', rfl, hn'⟩ heq
    simp only [cons_append, List.cons.injEq] at heq
    obtain ⟨-, rfl, rfl⟩ := heq
    rw [length_append] at hlen
    omega

/-! ## Elements with an id -/

/-- The elements without the id are passed over, as long as a byte stands behind them. -/
theorem cfg80211FindIe_append (hes : ieFormat.Without (HasId eid) es) (hr : r ≠ []) :
    cfg80211FindIe eid (es.flatten ++ r) (es.flatten ++ r).length =
      cfg80211FindIe eid r r.length := by
  induction es with
  | nil => rfl
  | cons e es ih =>
    obtain ⟨⟨⟨id, n, body, rfl, hn⟩, hid⟩, htail⟩ := Format.without_cons.mp hes
    rw [← ih htail, flatten_cons, append_assoc, cons_append, cons_append]
    have hpos : 0 < (es.flatten ++ r).length := length_pos_iff.mpr (by simp [hr])
    have hid' : id ≠ eid := hid
    have hlen : ((id :: n :: (body ++ (es.flatten ++ r))).length : ℤ) =
        (es.flatten ++ r).length + (body.length + 2) := by
      simp only [length_cons, length_append]
      omega
    rw [hlen, cfg80211FindIe_skip hid' hn (by omega), add_sub_cancel_right]

/-- An element with the id is found where it stands. -/
theorem cfg80211FindIe_whole (he : IsIe e) (hid : HasId eid e) :
    cfg80211FindIe eid (e ++ r) (e ++ r).length = some (e ++ r, ((e ++ r).length : ℤ)) := by
  obtain ⟨id, n, body, rfl, hn⟩ := he
  have hid' : (id :: n :: body ++ r).getD 0 0 = eid := hid
  apply cfg80211FindIe_here hid'
  show 2 + (n.toNat : ℤ) ≤ _
  simp only [length_append, length_cons]
  omega

/-- What is cut off is not found. -/
theorem cfg80211FindIe_truncated (hr : ieFormat.Truncated r) :
    cfg80211FindIe eid r r.length = none := by
  rcases r with _ | ⟨id, _ | ⟨n, body⟩⟩
  · rw [cfg80211FindIe, if_neg (by simp), if_pos (by simp)]
  · rw [cfg80211FindIe, if_neg (by simp), if_pos (by simp)]
  have hlen := truncated_cons_iff.mp hr
  have hn : ((id :: n :: body).getD 1 0).toNat = n.toNat := rfl
  rw [cfg80211FindIe, hn]
  simp only [length_cons]
  by_cases hskip : 2 < ((body.length + 1 + 1 : ℕ) : ℤ) ∧ (id :: n :: body).getD 0 0 ≠ eid
  · rw [if_pos hskip, cfg80211FindIe, if_neg (by omega), if_pos (by omega)]
  · rw [if_neg hskip, if_neg (by omega), if_pos (by omega)]

/-- The first element with the id is found. -/
theorem cfg80211FindIe_of_firstAt (h : ieFormat.FirstAt (HasId eid) buf k) :
    cfg80211FindIe eid buf buf.length = some (buf.drop k, (buf.length : ℤ) - k) := by
  obtain ⟨es, e, r, rfl, hes, he, hid, rfl⟩ := h
  rw [cfg80211FindIe_append hes (by simp [ieFormat.ne_nil he]), cfg80211FindIe_whole he hid,
    drop_left]
  congr 2
  simp only [length_append]
  omega

/-- Behind a last element without data the loop stops on that element: it is the answer,
whatever its id. -/
theorem cfg80211FindIe_of_endsEmpty (h : EndsEmpty eid buf) :
    ∃ id, cfg80211FindIe eid buf buf.length = some ([id, 0], 2) := by
  obtain ⟨es, id, hes, rfl⟩ := h
  refine ⟨id, ?_⟩
  rw [flatten_append, cfg80211FindIe_append (fun e he => hes e (by simp [he])) (by simp)]
  show cfg80211FindIe eid [id, 0] 2 = _
  rw [cfg80211FindIe, if_neg (by simp), if_neg (by simp), if_neg (by simp)]

/-- Without one nothing is found, unless the row ends in an empty one. -/
theorem cfg80211FindIe_eq_none (hes : ieFormat.Without (HasId eid) es)
    (hr : ieFormat.Truncated r) (h : ¬ EndsEmpty eid (es.flatten ++ r)) :
    cfg80211FindIe eid (es.flatten ++ r) (es.flatten ++ r).length = none := by
  by_cases hnil : r = []
  · subst hnil
    rw [append_nil] at h ⊢
    rcases eq_nil_or_concat es with rfl | ⟨fs, e, rfl⟩
    · exact cfg80211FindIe_truncated hr
    rw [concat_eq_append] at hes h ⊢
    have hfs : ieFormat.Without (HasId eid) fs := fun f hf => hes f (by simp [hf])
    obtain ⟨⟨id, n, body, rfl, hn⟩, hid⟩ := hes e (by simp)
    rw [flatten_append, cfg80211FindIe_append hfs (by simp)]
    have hflat : ([id :: n :: body] : List Bytes).flatten =
        id :: n :: (body ++ []) := by simp
    cases body with
    | nil =>
      have hn0 : n = 0 := UInt8.toNat_inj.mp hn
      exact absurd ⟨fs, id, hn0 ▸ hes, by rw [hn0]⟩ h
    | cons b body =>
      have hid' : id ≠ eid := hid
      have hlen : ((id :: n :: ((b :: body) ++ [])).length : ℤ) =
          0 + ((b :: body).length + 2) := by simp; omega
      rw [hflat, hlen, cfg80211FindIe_skip hid' hn (by rw [length_cons]; omega),
        add_sub_cancel_right]
      exact cfg80211FindIe_truncated hr
  · rw [cfg80211FindIe_append hes hnil, cfg80211FindIe_truncated hr]

/-- **The search for an id** answers as it should for every buffer that does not end with an
element without data behind elements without the id. -/
theorem answers_cfg80211FindIe_iff :
    Answers (HasId eid) buf (cfg80211FindIe eid buf buf.length) ↔ ¬ EndsEmpty eid buf := by
  constructor
  · rintro ⟨-, hnone⟩ hend
    obtain ⟨id, hfound⟩ := cfg80211FindIe_of_endsEmpty hend
    obtain ⟨es, id', hes, rfl⟩ := hend
    rw [← append_nil (es ++ [[id', 0]]).flatten] at hnone hfound
    rw [hnone fun k => Format.not_firstAt_of_truncated hes Format.truncated_nil] at hfound
    simp at hfound
  · intro hend
    refine ⟨fun k hk => cfg80211FindIe_of_firstAt hk, fun hno => ?_⟩
    rcases ieFormat.firstAt_or_truncated (HasId eid) buf with ⟨k, hk⟩ | ⟨es, r, rfl, hes, hr⟩
    · exact absurd hk (hno k)
    · exact cfg80211FindIe_eq_none hes hr hend

/-! ## Vendor elements -/

/-- The property that the code looks for: six data bytes, where four hold the OUI and the
type. -/
def HasOuiOfSix (oui : ℕ) (ouiType : UInt8) (e : Bytes) : Prop :=
  HasOui oui ouiType e ∧ 6 ≤ (e.getD 1 0).toNat

theorem findVendorIeLoop_nil : findVendorIeLoop oui ouiType fuel [] 0 = none := by
  cases fuel with
  | zero => rfl
  | succ fuel => exact if_pos le_rfl

/-- The loop depends on the next vendor element only. -/
theorem findVendorIeLoop_congr {s : Bytes} (hr : r ≠ []) (hs : s ≠ [])
    (h : cfg80211FindIe wlanEidVendorSpecific s s.length =
      cfg80211FindIe wlanEidVendorSpecific r r.length) :
    findVendorIeLoop oui ouiType fuel s s.length =
      findVendorIeLoop oui ouiType fuel r r.length := by
  have hr' := length_pos_iff.mpr hr
  have hs' := length_pos_iff.mpr hs
  cases fuel with
  | zero => rfl
  | succ fuel =>
    rw [findVendorIeLoop, findVendorIeLoop, if_neg (by omega), if_neg (by omega), h]

/-- A vendor element is the one, or the search goes on behind it. -/
theorem findVendorIeLoop_vendor (he : IsIe e) (hid : HasId wlanEidVendorSpecific e) :
    findVendorIeLoop oui ouiType (fuel + 1) (e ++ r) (e ++ r).length =
      if 6 ≤ (e.getD 1 0).toNat ∧ vendorOui (e ++ r) = oui ∧ (e ++ r).getD 5 0 = ouiType then
        some (e ++ r, ((e ++ r).length : ℤ))
      else findVendorIeLoop oui ouiType fuel r r.length := by
  have hpos : 0 < (e ++ r).length := length_pos_iff.mpr (by simp [he.ne_nil])
  rw [findVendorIeLoop, if_neg (by omega), cfg80211FindIe_whole he hid]
  obtain ⟨id, n, body, rfl, hn⟩ := he
  have hlen : ((id :: n :: body ++ r).length : ℤ) - (2 + n.toNat) = r.length := by
    simp only [length_append, length_cons]
    omega
  have hdrop : (id :: n :: body ++ r).drop (2 + n.toNat) = r := by
    rw [show 2 + n.toNat = (id :: n :: body).length by simp only [length_cons]; omega]
    exact drop_left
  show (if _ then _ else findVendorIeLoop oui ouiType fuel
    ((id :: n :: body ++ r).drop (2 + n.toNat))
    (((id :: n :: body ++ r).length : ℤ) - (2 + n.toNat))) = _
  rw [hdrop, hlen]
  rfl

/-- The OUI is in the element. -/
theorem vendorOui_append (h : 6 ≤ e.length) : vendorOui (e ++ r) = vendorOui e := by
  rw [vendorOui, vendorOui, getD_append e r 0 2 (by omega),
    getD_append e r 0 3 (by omega), getD_append e r 0 4 (by omega)]

/-- The test of the loop on an element. -/
theorem hasOuiOfSix_iff (he : IsIe e) (hid : HasId wlanEidVendorSpecific e) :
    6 ≤ (e.getD 1 0).toNat ∧ vendorOui (e ++ r) = oui ∧ (e ++ r).getD 5 0 = ouiType ↔
      HasOuiOfSix oui ouiType e := by
  have hlen : (e.getD 1 0).toNat + 2 = e.length := by
    obtain ⟨id, n, body, rfl, hn⟩ := he
    show n.toNat + 2 = body.length + 1 + 1
    omega
  constructor
  · rintro ⟨hsix, houi, htype⟩
    rw [vendorOui_append (by omega)] at houi
    rw [getD_append e r 0 5 (by omega)] at htype
    exact ⟨⟨hid, by omega, houi, htype⟩, hsix⟩
  · rintro ⟨⟨-, -, houi, htype⟩, hsix⟩
    rw [vendorOui_append (by omega), getD_append e r 0 5 (by omega)]
    exact ⟨hsix, houi, htype⟩

/-- The answer of the loop for every number of rounds that is large enough. -/
def Settles (oui : ℕ) (ouiType : UInt8) (buf : Bytes) (found : Option (Bytes × ℤ)) :
    Prop :=
  ∀ fuel, buf.length < fuel → findVendorIeLoop oui ouiType fuel buf buf.length = found

/-- What is cut off settles nothing. -/
theorem settles_truncated (hr : ieFormat.Truncated r) : Settles oui ouiType r none := by
  intro fuel hfuel
  obtain ⟨f, rfl⟩ : ∃ f, fuel = f + 1 := ⟨fuel - 1, by omega⟩
  rw [findVendorIeLoop]
  split
  · rfl
  · rw [cfg80211FindIe_truncated hr]

/-- Nor does an element of another kind. -/
theorem settles_singleton (he : IsIe e) (hid : ¬ HasId wlanEidVendorSpecific e) :
    Settles oui ouiType e none := by
  intro fuel hfuel
  obtain ⟨f, rfl⟩ : ∃ f, fuel = f + 1 := ⟨fuel - 1, by omega⟩
  have hpos : 0 < e.length := length_pos_iff.mpr he.ne_nil
  rw [findVendorIeLoop, if_neg (by omega)]
  by_cases hend : EndsEmpty wlanEidVendorSpecific e
  · obtain ⟨id, hfound⟩ := cfg80211FindIe_of_endsEmpty hend
    rw [hfound]
    exact findVendorIeLoop_nil
  · have hrow : ieFormat.Without (HasId wlanEidVendorSpecific) [e] := by
      exact forall_mem_singleton.mpr ⟨he, hid⟩
    have hflat : [e].flatten ++ [] = e := by simp
    rw [← hflat] at hend ⊢
    rw [cfg80211FindIe_eq_none hrow Format.truncated_nil hend]

variable {found : Option (Bytes × ℤ)}

/-- An element that is not the one is passed over. -/
theorem Settles.skip (he : IsIe e) (hno : ¬ HasOuiOfSix oui ouiType e)
    (h : Settles oui ouiType r found) : Settles oui ouiType (e ++ r) found := by
  by_cases hid : HasId wlanEidVendorSpecific e
  · intro fuel hfuel
    obtain ⟨f, rfl⟩ : ∃ f, fuel = f + 1 := ⟨fuel - 1, by omega⟩
    have hpos : 0 < e.length := length_pos_iff.mpr he.ne_nil
    rw [length_append] at hfuel
    rw [findVendorIeLoop_vendor he hid, if_neg fun hc => hno ((hasOuiOfSix_iff he hid).mp hc)]
    exact h f (by omega)
  by_cases hr : r = []
  · subst hr
    rw [← h 1 (by simp), append_nil]
    show Settles oui ouiType e (findVendorIeLoop oui ouiType 1 [] 0)
    rw [findVendorIeLoop_nil]
    exact settles_singleton he hid
  intro fuel hfuel
  have hrow : ieFormat.Without (HasId wlanEidVendorSpecific) [e] := by
    exact forall_mem_singleton.mpr ⟨he, hid⟩
  have hskip := cfg80211FindIe_append hrow hr
  rw [flatten_singleton] at hskip
  rw [length_append] at hfuel
  rw [findVendorIeLoop_congr hr (by simp [hr]) hskip]
  exact h fuel (by omega)

/-- So are several. -/
theorem Settles.skips (hes : ieFormat.Without (HasOuiOfSix oui ouiType) es)
    (h : Settles oui ouiType r found) : Settles oui ouiType (es.flatten ++ r) found := by
  induction es with
  | nil => exact h
  | cons e es ih =>
    obtain ⟨⟨he, hno⟩, htail⟩ := Format.without_cons.mp hes
    rw [flatten_cons, append_assoc]
    exact (ih htail).skip he hno

/-- The first one settles the search. -/
theorem settles_of_firstAt (h : ieFormat.FirstAt (HasOuiOfSix oui ouiType) buf k) :
    Settles oui ouiType buf (some (buf.drop k, (buf.length : ℤ) - k)) := by
  obtain ⟨es, e, r, rfl, hes, he, hoid, rfl⟩ := h
  have hlen : ((es.flatten ++ (e ++ r)).length : ℤ) - es.flatten.length = (e ++ r).length := by
    rw [length_append]
    omega
  rw [drop_left, hlen]
  apply Settles.skips hes
  intro fuel hfuel
  obtain ⟨f, rfl⟩ : ∃ f, fuel = f + 1 := ⟨fuel - 1, by omega⟩
  have hid := hoid.1.1
  rw [findVendorIeLoop_vendor he hid, if_pos ((hasOuiOfSix_iff he hid).mpr hoid)]

/-- Without one the search finds nothing. -/
theorem settles_none (h : ∀ k, ¬ ieFormat.FirstAt (HasOuiOfSix oui ouiType) buf k) :
    Settles oui ouiType buf none := by
  rcases ieFormat.firstAt_or_truncated (HasOuiOfSix oui ouiType) buf with
    ⟨k, hk⟩ | ⟨es, r, rfl, hes, hr⟩
  · exact absurd hk (h k)
  · exact (settles_truncated hr).skips hes

/-- The search does what settles it. -/
theorem settles_cfg80211FindVendorIe (buf : Bytes) :
    Settles oui ouiType buf (cfg80211FindVendorIe oui ouiType buf buf.length) := by
  have hfuel : ((buf.length : ℤ).toNat + 1) = buf.length + 1 := by omega
  rw [cfg80211FindVendorIe, hfuel]
  by_cases h : ∃ k, ieFormat.FirstAt (HasOuiOfSix oui ouiType) buf k
  · obtain ⟨k, hk⟩ := h
    rw [settles_of_firstAt hk (buf.length + 1) (by omega)]
    exact settles_of_firstAt hk
  · have hno := settles_none (not_exists.mp h)
    rw [hno (buf.length + 1) (by omega)]
    exact hno

/-- A search is settled in one way. -/
theorem settles_unique {found' : Option (Bytes × ℤ)} (h : Settles oui ouiType buf found)
    (h' : Settles oui ouiType buf found') : found = found' :=
  (h _ (Nat.lt_succ_self _)).symm.trans (h' _ (Nat.lt_succ_self _))

/-- The length byte of the first element. -/
theorem IsIe.getD_one_append (he : IsIe e) : (e ++ r).getD 1 0 = e.getD 1 0 := by
  obtain ⟨id, n, body, rfl, -⟩ := he
  rfl

/-- **The search for a vendor element** answers as it should unless the first vendor element with
the OUI and the type has less than six data bytes. -/
theorem answers_cfg80211FindVendorIe_iff :
    Answers (HasOui oui ouiType) buf (cfg80211FindVendorIe oui ouiType buf buf.length) ↔
      ∀ k, ieFormat.FirstAt (HasOui oui ouiType) buf k → 6 ≤ ((buf.drop k).getD 1 0).toNat := by
  have hcode : Settles oui ouiType buf (cfg80211FindVendorIe oui ouiType buf buf.length) :=
    settles_cfg80211FindVendorIe buf
  constructor
  · rintro ⟨hfirst, -⟩ k hk
    have hk' := hfirst k hk
    by_cases h : ∃ l, ieFormat.FirstAt (HasOuiOfSix oui ouiType) buf l
    · obtain ⟨l, hl⟩ := h
      rw [settles_unique hcode (settles_of_firstAt hl)] at hk'
      have hlk : l = k := by simpa using congrArg (Option.map Prod.snd) hk'
      obtain ⟨e, r, hdrop, he, -, hsix⟩ := hl.drop
      rw [← hlk, hdrop, IsIe.getD_one_append he]
      exact hsix
    · rw [settles_unique hcode (settles_none (not_exists.mp h))] at hk'
      simp at hk'
  · intro hsix
    constructor
    · intro k hk
      apply settles_unique hcode (settles_of_firstAt ?_)
      apply hk.mono fun e he => he.1
      intro e r hdrop he
      obtain ⟨f, s, hdrop', hf, hoid⟩ := hk.drop
      have hsix' := hsix k hk
      rw [hdrop, IsIe.getD_one_append he] at hsix'
      have hef : e = f := IsIe.eq_of_append he hf (hdrop.symm.trans hdrop')
      exact ⟨hef ▸ hoid, hsix'⟩
    · intro hno
      apply settles_unique hcode (settles_none ?_)
      intro k hk
      rcases ieFormat.firstAt_or_truncated (HasOui oui ouiType) buf with
        ⟨l, hl⟩ | ⟨es, r, rfl, hes, hr⟩
      · exact hno l hl
      · exact Format.not_firstAt_of_truncated (hes.mono fun e he => he.1) hr hk

/-! ## Both searches -/

/-- **Both searches of the code.**  They end, and they answer with the first whole element that is
looked for if and only if the elements do not end with an empty one behind others without the id,
and the first vendor element with the OUI and the type has six data bytes or more. -/
theorem cfg80211_find_iff (eid ouiType : UInt8) (oui : ℕ) (buf : Bytes) :
    (∀ fuel, buf.length < fuel → findVendorIeLoop oui ouiType fuel buf buf.length =
      cfg80211FindVendorIe oui ouiType buf buf.length) ∧
    (Answers (HasId eid) buf (cfg80211FindIe eid buf buf.length) ↔ ¬ EndsEmpty eid buf) ∧
    (Answers (HasOui oui ouiType) buf (cfg80211FindVendorIe oui ouiType buf buf.length) ↔
      ∀ k, ieFormat.FirstAt (HasOui oui ouiType) buf k → 6 ≤ ((buf.drop k).getD 1 0).toNat) :=
  ⟨settles_cfg80211FindVendorIe buf, answers_cfg80211FindIe_iff, answers_cfg80211FindVendorIe_iff⟩

/-- An SSID element without data is the answer to the search for a vendor element, and a WPS
element with four data bytes is not found. -/
theorem cfg80211_find_empty_ssid_short_wps :
    cfg80211FindIe wlanEidVendorSpecific [0, 0] 2 = some ([0, 0], 2) ∧
    ¬ Answers (HasId wlanEidVendorSpecific) [0, 0] (cfg80211FindIe wlanEidVendorSpecific [0, 0] 2) ∧
    cfg80211FindVendorIe 0x0050F2 4 [221, 4, 0, 0x50, 0xF2, 4] 6 = none ∧
    ¬ Answers (HasOui 0x0050F2 4) [221, 4, 0, 0x50, 0xF2, 4]
      (cfg80211FindVendorIe 0x0050F2 4 [221, 4, 0, 0x50, 0xF2, 4] 6) := by
  have hempty : EndsEmpty wlanEidVendorSpecific [0, 0] := by
    refine ⟨[], 0, ?_, rfl⟩
    intro e he
    rw [mem_singleton.mp he]
    have hne : (0 : UInt8) ≠ wlanEidVendorSpecific := by decide
    exact ⟨⟨0, 0, [], rfl, rfl⟩, hne⟩
  have hie : IsIe [221, 4, 0, 0x50, 0xF2, 4] := ⟨221, 4, _, rfl, rfl⟩
  have hwps : ieFormat.FirstAt (HasOui 0x0050F2 4) [221, 4, 0, 0x50, 0xF2, 4] 0 :=
    ⟨[], _, [], rfl, fun e he => absurd he (by simp), hie,
      ⟨rfl, by decide, by decide, by decide⟩, rfl⟩
  refine ⟨?_, fun h => answers_cfg80211FindIe_iff.mp h hempty, ?_, fun h => ?_⟩
  · rw [cfg80211FindIe, if_neg (by simp), if_neg (by simp), if_neg (by simp)]
  · show findVendorIeLoop 0x0050F2 4 7 ([221, 4, 0, 0x50, 0xF2, 4] ++ []) 6 = none
    rw [show (6 : ℤ) = (([221, 4, 0, 0x50, 0xF2, 4] ++ [] : Bytes).length : ℤ) from rfl,
      findVendorIeLoop_vendor hie rfl, if_neg (by decide)]
    exact findVendorIeLoop_nil
  · exact absurd (answers_cfg80211FindVendorIe_iff.mp h 0 hwps) (by decide)

end Iotkit.ZeroConfig
