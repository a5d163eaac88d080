import AtNode.Ch582.AtTable
import AtNode.Lib.Occurs

/-!
# The name matchers of the CH582 dongle

The filter of a scan and a watch look for their text with `dgl_strcasestr`, an immediate connect with
a test of its own in `ble_dongle_find`. The first folds the letters, the second drops bit 5 of every
character, so `[` and `{` are the same to it. A filter and a watch keep the first 20 characters of
their text.
-/

namespace AtNode.Central

open AtCmds Occurs
open CString (toLower)

def dropBit5 (c : UInt8) : UInt8 := c ||| 0x20

/-- The text stands in the name, whatever its case. -/
def Stands (s name : Text) : Prop := ∃ p, OccursAt toLower s name p

/-- The answer of `dgl_strcasestr`: what is left of the haystack at the first occurrence. -/
def FindsFirst (needle hay : Text) : Option Text → Prop
  | some t => ∃ p, FirstAt toLower needle hay p ∧ t = hay.drop p
  | none => ¬ Stands needle hay

/-- `ble_dongle_find` takes the text for a part of a name. -/
def NameText (s : Text) : Prop :=
  s ≠ [] ∧ ¬ (s.all CString.isDigit ∧ s.length ≤ 3) ∧
    ¬ (s.all (fun c => CString.isDigit c || 'A'.toUInt8 ≤ c && c ≤ 'F'.toUInt8) ∧ s.length = 12)

/-- The entry that a text of up to three digits means by its place, and one of twelve hexadecimal digits by
its address. -/
def placed (list : List ScanRec) (s : Text) : Option ℕ :=
  if s.all CString.isDigit ∧ s.length ≤ 3 then
    if CString.digits s < list.length then some (CString.digits s) else none
  else list.findIdx? fun r => addrText r.addr = s

/-- The strongest entry in which the text stands, the first of equals. -/
def Resolves (hit : Text → Prop) (list : List ScanRec) : Option ℕ → Prop
  | none => ∀ r ∈ list, ¬ hit r.name
  | some i => ∃ r, list[i]? = some r ∧ hit r.name ∧
      ∀ j q, list[j]? = some q → hit q.name → q.rssi ≤ r.rssi ∧ (j < i → q.rssi < r.rssi)

def watching (d : Dongle) (s : Text) : Dongle :=
  { d with watchActive := true, watchIsMac := false, watchName := s.take dglNameLen }

def filtering (d : Dongle) (s : Text) : Dongle := { d with filter := s.take dglNameLen }

/-- What a watch, a filter and an immediate connect make of one text. The filter `HID` is not a part
of a name. -/
structure MatchersAgree (d : Dongle) (s : Text) : Prop where
  test : ∀ r ∈ d.scanList, nameHit r.name s = true ↔ (dglStrcasestr s r.name).isSome
  watch : ∀ r ∈ d.scanList, ∀ info : DeviceInfo, info.name = r.name →
    (watchHit (watching d s) info = true ↔ nameHit r.name s = true)
  filter : (filtering d s).filter.map dglTolower ≠ hidFilter → ∀ r ∈ d.scanList,
    ∀ info : DeviceInfo, info.name = r.name →
      (passesFilter (filtering d s).filter info = true ↔ nameHit r.name s = true)
  resolves : Resolves (Stands s) d.scanList (bleDongleFind d s)

def isLetter (c : UInt8) : Bool := 0x41 ≤ c && c ≤ 0x5A || 0x61 ≤ c && c ≤ 0x7A

def SameLetter (a b : UInt8) : Prop := a = b ∨ isLetter a ∧ isLetter b ∧ dropBit5 a = dropBit5 b

/-- The text stands in the name with letters only written otherwise. -/
def StandsByLetters (s name : Text) : Prop :=
  ∃ p, p + s.length ≤ name.length ∧
    ∀ i (_ : i < s.length) (_ : p + i < name.length), SameLetter s[i] name[p + i]

/-- No punctuation that differs in bit 5 alone makes the text stand in the name, and nor does the cut
to 20 characters. -/
structure Harmless (s name : Text) : Prop where
  punctuation : (∃ p, OccursAt dropBit5 s name p) → StandsByLetters s name
  cut : dglNameLen < s.length → StandsByLetters (s.take dglNameLen) name → StandsByLetters s name

/-- The text is one that is looked for in the names, or the entry it means by place or address is the one
that a search in the names would give. -/
def Means (d : Dongle) (s : Text) : Prop :=
  ¬ NameText s → Resolves (Stands s) d.scanList (placed d.scanList s)

section Folding

theorem forall_byte {P : UInt8 → Prop} (h : ∀ i : Fin 256, P (UInt8.ofNat i)) (c : UInt8) : P c := by
  have hc := h ⟨c.toNat, c.toNat_lt⟩
  rwa [UInt8.ofNat_toNat] at hc

theorem dglTolower_eq (c : UInt8) : dglTolower c = toLower c := by
  apply forall_byte (P := fun c => dglTolower c = toLower c)
  decide +kernel

theorem dropBit5_toLower (c : UInt8) : dropBit5 (toLower c) = dropBit5 c := by
  apply forall_byte (P := fun c => dropBit5 (toLower c) = dropBit5 c)
  decide +kernel

theorem toLower_of_letter {c : UInt8} (h : isLetter c = true) : toLower c = dropBit5 c := by
  revert h
  apply forall_byte (P := fun c => isLetter c = true → toLower c = dropBit5 c)
  decide +kernel

theorem toLower_cases (c : UInt8) : toLower c = c ∨ isLetter c ∧ isLetter (toLower c) := by
  apply forall_byte (P := fun c => toLower c = c ∨ isLetter c ∧ isLetter (toLower c))
  decide +kernel

theorem toLower_eq_iff {a b : UInt8} : toLower a = toLower b ↔ SameLetter a b := by
  constructor
  · intro h
    have hbit : dropBit5 a = dropBit5 b := by
      rw [← dropBit5_toLower a, h, dropBit5_toLower]
    rcases toLower_cases a with ha | ⟨ha, ha'⟩
    · rcases toLower_cases b with hb | ⟨hb, hb'⟩
      · exact Or.inl (by rw [← ha, h, hb])
      · exact Or.inr ⟨by rwa [← ha, h], hb, hbit⟩
    · rcases toLower_cases b with hb | ⟨hb, -⟩
      · exact Or.inr ⟨ha, by rwa [← hb, ← h], hbit⟩
      · exact Or.inr ⟨ha, hb, hbit⟩
  · rintro (rfl | ⟨ha, hb, h⟩)
    · rfl
    · rw [toLower_of_letter ha, toLower_of_letter hb, h]

theorem dropBit5_of_toLower (a b : UInt8) (h : toLower a = toLower b) :
    dropBit5 a = dropBit5 b := by
  rw [← dropBit5_toLower a, h, dropBit5_toLower]

theorem stands_iff_letters {s name : Text} : Stands s name ↔ StandsByLetters s name := by
  simp only [Stands, StandsByLetters, occursAt_iff_getElem, toLower_eq_iff]

end Folding

section Search

variable {needle hay : Text}

/-- The inner loop decides whether the needle stands at the head, and where it gives up the haystack
is too short. -/
theorem matchesAt_spec (hay needle : Text) :
    (matchesAt hay needle = some true → OccursAt toLower needle hay 0) ∧
      (matchesAt hay needle = some false → ¬ OccursAt toLower needle hay 0) ∧
      (matchesAt hay needle = none → hay.length < needle.length) := by
  induction needle generalizing hay with
  | nil => simp [matchesAt, OccursAt]
  | cons b needle ih =>
    cases hay with
    | nil => simp [matchesAt]
    | cons a hay =>
      have hcons : OccursAt toLower (b :: needle) (a :: hay) 0 ↔
          toLower b = toLower a ∧ OccursAt toLower needle hay 0 := by
        simp [OccursAt, List.cons_prefix_cons]
      rw [matchesAt, dglTolower_eq, dglTolower_eq, hcons]
      obtain ⟨ht, hf, hn⟩ := ih hay
      by_cases hab : toLower a = toLower b
      · rw [if_pos hab]
        refine ⟨fun h => ⟨hab.symm, ht h⟩, fun h ho => hf h ho.2, fun h => ?_⟩
        exact Nat.succ_lt_succ (hn h)
      · rw [if_neg hab]
        refine ⟨fun h => ?_, fun _ ho => hab ho.1.symm, fun h => ?_⟩
        · cases h
        · cases h

theorem dglStrcasestr_spec (needle hay : Text) :
    FindsFirst needle hay (dglStrcasestr needle hay) := by
  induction hay with
  | nil =>
    by_cases hn : needle = []
    · subst hn
      exact ⟨0, ⟨occursAt_nil_right.mpr ⟨rfl, rfl⟩, nofun⟩, rfl⟩
    · rw [dglStrcasestr, if_neg hn]
      rintro ⟨p, hp⟩
      exact hn (occursAt_nil_right.mp hp).2
  | cons c hay ih =>
    obtain ⟨ht, hf, hn⟩ := matchesAt_spec (c :: hay) needle
    rw [dglStrcasestr]
    match hm : matchesAt (c :: hay) needle with
    | some true => exact ⟨0, ⟨ht hm, nofun⟩, rfl⟩
    | some false =>
      have hzero := hf hm
      dsimp only
      match hd : dglStrcasestr needle hay with
      | some t =>
        rw [hd] at ih
        obtain ⟨p, ⟨hocc, hfirst⟩, rfl⟩ := ih
        refine ⟨p + 1, ⟨occursAt_succ.mpr hocc, fun q hq => ?_⟩, rfl⟩
        cases q with
        | zero => exact hzero
        | succ q => exact fun h => hfirst q (Nat.lt_of_succ_lt_succ hq) (occursAt_succ.mp h)
      | none =>
        rw [hd] at ih
        rintro ⟨p, hp⟩
        cases p with
        | zero => exact hzero hp
        | succ p => exact ih ⟨p, occursAt_succ.mp hp⟩
    | none =>
      rintro ⟨p, hp⟩
      have hshort := hn hm
      have hlen := hp.length_le
      omega

theorem dglStrcasestr_isSome : (dglStrcasestr needle hay).isSome ↔ Stands needle hay := by
  have h := dglStrcasestr_spec needle hay
  cases hd : dglStrcasestr needle hay with
  | some t =>
    rw [hd] at h
    obtain ⟨p, hp, -⟩ := h
    exact ⟨fun _ => ⟨p, hp.1⟩, fun _ => rfl⟩
  | none =>
    rw [hd] at h
    exact ⟨nofun, fun hs => absurd hs h⟩

theorem nameHit_iff {name s : Text} :
    nameHit name s = true ↔ ∃ p < name.length, OccursAt dropBit5 s name p := by
  simp only [nameHit, List.any_eq_true, List.mem_tails, decide_eq_true_eq,
    List.isPrefixOf_iff_prefix]
  constructor
  · rintro ⟨t, ⟨hd, rfl⟩, hne, hp⟩
    have hpos := List.length_pos_iff.mpr hne
    refine ⟨hd.length, by rw [List.length_append]; omega, by simp, ?_⟩
    rw [List.drop_left]
    exact hp
  · rintro ⟨p, hlt, -, hp⟩
    refine ⟨name.drop p, List.drop_suffix p name, ?_, hp⟩
    exact List.ne_nil_of_length_pos (by rw [List.length_drop]; omega)

/-- With a text there is no occurrence at the end of the name. -/
theorem nameHit_iff_occurs {name s : Text} (hs : s ≠ []) :
    nameHit name s = true ↔ ∃ p, OccursAt dropBit5 s name p := by
  rw [nameHit_iff]
  constructor
  · rintro ⟨p, -, hp⟩
    exact ⟨p, hp⟩
  · rintro ⟨p, hp⟩
    have hlen := hp.length_le
    have hpos := List.length_pos_iff.mpr hs
    exact ⟨p, by omega, hp⟩

theorem nameHit_of_stands {name s : Text} (hs : s ≠ []) (h : Stands s name) :
    nameHit name s = true := by
  obtain ⟨p, hp⟩ := h
  exact (nameHit_iff_occurs hs).mpr ⟨p, hp.mono dropBit5_of_toLower⟩

theorem name_ne_nil_of_stands {name s : Text} (hs : s ≠ []) (h : Stands s name) : name ≠ [] := by
  rintro rfl
  obtain ⟨p, hp⟩ := h
  exact hs (occursAt_nil_right.mp hp).2

/-- The beginning of a text stands where the text stands. -/
theorem stands_take {name s : Text} (n : ℕ) (h : Stands s name) : Stands (s.take n) name := by
  obtain ⟨p, hp, hpre⟩ := h
  refine ⟨p, hp, List.IsPrefix.trans ?_ hpre⟩
  rw [List.map_take]
  exact List.take_prefix n _

end Search

section Strongest

variable {s : Text} {list : List ScanRec}

/-- What the loop of `ble_dongle_find` has found in the entries it has passed. -/
def Best (hit : Text → Prop) (done : List ScanRec) : Option (ℕ × Int8) → Prop
  | none => ∀ r ∈ done, ¬ hit r.name
  | some (i, rssi) => ∃ r, done[i]? = some r ∧ hit r.name ∧ r.rssi = rssi ∧
      ∀ j q, done[j]? = some q → hit q.name → q.rssi ≤ rssi ∧ (j < i → q.rssi < rssi)

theorem best_skip {hit : Text → Prop} {done : List ScanRec} {best : Option (ℕ × Int8)}
    {r : ScanRec} (h : Best hit done best)
    (hr : hit r.name → ∃ b ∈ best, r.rssi ≤ b.2) : Best hit (done ++ [r]) best := by
  cases best with
  | none =>
    intro q hq
    rcases List.mem_append.mp hq with hq | hq
    · exact h q hq
    · rw [List.mem_singleton.mp hq]
      intro hhit
      obtain ⟨b, hb, -⟩ := hr hhit
      cases hb
  | some b =>
    obtain ⟨i, rssi⟩ := b
    obtain ⟨x, hx, hhit, hrssi, hall⟩ := h
    have hi : i < done.length := (List.getElem?_eq_some_iff.mp hx).1
    refine ⟨x, by rw [List.getElem?_append_left hi, hx], hhit, hrssi, fun j q hq hq' => ?_⟩
    by_cases hj : j < done.length
    · rw [List.getElem?_append_left hj] at hq
      exact hall j q hq hq'
    · obtain rfl : r = q := by
        have hmem := List.mem_of_getElem? hq
        rw [List.getElem?_append_right (by omega)] at hq
        exact (List.mem_singleton.mp (List.mem_of_getElem? hq)).symm
      obtain ⟨b, hb, hle⟩ := hr hq'
      cases hb
      exact ⟨hle, fun hlt => absurd hlt (by omega)⟩

theorem best_take {hit : Text → Prop} {done : List ScanRec} {best : Option (ℕ × Int8)}
    {r : ScanRec} (h : Best hit done best) (hhit : hit r.name)
    (hr : ∀ b ∈ best, b.2 < r.rssi) : Best hit (done ++ [r]) (some (done.length, r.rssi)) := by
  have hold : ∀ q ∈ done, hit q.name → q.rssi < r.rssi := by
    intro q hq hq'
    cases best with
    | none => exact absurd hq' (h q hq)
    | some b =>
      obtain ⟨j, hj⟩ := List.mem_iff_getElem?.mp hq
      obtain ⟨x, -, -, -, hall⟩ := h
      exact Int8.lt_of_le_of_lt (hall j q hj hq').1 (hr b rfl)
  refine ⟨r, by simp, hhit, rfl, fun j q hq hq' => ?_⟩
  by_cases hj : j < done.length
  · rw [List.getElem?_append_left hj] at hq
    have hlt := hold q (List.mem_of_getElem? hq) hq'
    exact ⟨Int8.le_of_lt hlt, fun _ => hlt⟩
  · rw [List.getElem?_append_right (by omega)] at hq
    rw [List.mem_singleton.mp (List.mem_of_getElem? hq)]
    exact ⟨Int8.le_refl _, fun hlt => absurd hlt hj⟩

theorem strongest_spec (s : Text) (rs done : List ScanRec) (best : Option (ℕ × Int8))
    (h : Best (fun name => nameHit name s = true) done best) :
    Resolves (fun name => nameHit name s = true) (done ++ rs) (strongest s rs done.length best) := by
  induction rs generalizing done best with
  | nil =>
    rw [List.append_nil, strongest]
    cases best with
    | none => exact h
    | some b =>
      obtain ⟨r, hr, hhit, hrssi, hall⟩ := h
      refine ⟨r, hr, hhit, ?_⟩
      rw [hrssi]
      exact hall
  | cons r rs ih =>
    unfold strongest
    have hlen : (done ++ [r]).length = done.length + 1 := by simp
    rw [← hlen, show done ++ r :: rs = (done ++ [r]) ++ rs by simp]
    apply ih
    by_cases hhit : nameHit r.name s = true
    · rw [hhit, Bool.true_and]
      cases best with
      | none => exact best_take h hhit nofun
      | some b =>
        dsimp only
        by_cases hlt : b.2 < r.rssi
        · rw [if_pos (decide_eq_true hlt)]
          refine best_take h hhit fun b' hb => ?_
          rwa [← Option.some.inj hb]
        · rw [if_neg (by simpa using hlt)]
          exact best_skip h fun _ => ⟨b, rfl, Int8.not_lt.mp hlt⟩
    · rw [Bool.eq_false_iff.mpr hhit, Bool.false_and, if_neg Bool.false_ne_true]
      exact best_skip h fun hn => absurd hn hhit

theorem resolves_congr {hit hit' : Text → Prop} {i : Option ℕ}
    (h : ∀ r ∈ list, hit r.name ↔ hit' r.name) (hr : Resolves hit list i) :
    Resolves hit' list i := by
  cases i with
  | none => exact fun r hmem hhit => hr r hmem ((h r hmem).mpr hhit)
  | some i =>
    obtain ⟨r, hget, hhit, hall⟩ := hr
    refine ⟨r, hget, (h r (List.mem_of_getElem? hget)).mp hhit, fun j q hq hq' => ?_⟩
    exact hall j q hq ((h q (List.mem_of_getElem? hq)).mpr hq')

theorem bleDongleFind_nil {d : Dongle} (hl : d.scanList = []) : bleDongleFind d s = none := by
  rw [bleDongleFind, if_pos (Or.inr hl)]

/-- Any other text means a place or an address. -/
theorem bleDongleFind_placed {d : Dongle} (hs : s ≠ []) (hl : d.scanList ≠ []) (h : ¬ NameText s) :
    bleDongleFind d s = placed d.scanList s := by
  rw [bleDongleFind, if_neg (not_or.mpr ⟨hs, hl⟩), placed]
  split_ifs with hindex hlen haddr
  · rfl
  · rfl
  · rfl
  · exact absurd ⟨hs, hindex, haddr⟩ h

theorem bleDongleFind_name {d : Dongle} (h : NameText s) :
    Resolves (fun name => nameHit name s = true) d.scanList (bleDongleFind d s) := by
  obtain ⟨hs, hindex, haddr⟩ := h
  by_cases hl : d.scanList = []
  · rw [bleDongleFind, if_pos (Or.inr hl), hl]
    exact fun r hr => absurd hr List.not_mem_nil
  · rw [bleDongleFind, if_neg (not_or.mpr ⟨hs, hl⟩), if_neg hindex, if_neg haddr]
    exact strongest_spec s d.scanList [] none fun r hr => absurd hr List.not_mem_nil

end Strongest

section Agreement

variable {d : Dongle} {s : Text}

theorem connectWatch_watching (hs : d.state = .idle) (hw : d.watchActive = false) (addr : Addr)
    (timeoutS : UInt8) (info : DeviceInfo) :
    watchHit (bleDongleConnectWatch d false addr s timeoutS).1 info =
      watchHit (watching d s) info := by
  rw [bleDongleConnectWatch, if_neg (by simp [hs, hw]), bleDongleScan, if_neg (by simp [hs])]
  rfl

theorem btScan_filtering (hs : d.state = .idle) (sec : ℤ) :
    (Central.btScanDgl d sec s).1.filter = (filtering d s).filter := by
  rw [Central.btScanDgl, bleDongleScan, if_neg (by simp [hs])]
  rfl

theorem stored_ne_nil (hs : s ≠ []) : s.take dglNameLen ≠ [] := by
  simpa [List.take_eq_nil_iff] using hs

theorem watchHit_watching (hs : s ≠ []) {info : DeviceInfo} :
    watchHit (watching d s) info = true ↔ Stands (s.take dglNameLen) info.name := by
  simp only [watchHit, watching, Bool.false_eq_true, if_false, Bool.and_eq_true, decide_eq_true_eq,
    dglStrcasestr_isSome, and_iff_right_iff_imp]
  exact name_ne_nil_of_stands (stored_ne_nil hs)

theorem passesFilter_filtering (hs : s ≠ []) (hh : (filtering d s).filter.map dglTolower ≠ hidFilter)
    {info : DeviceInfo} :
    passesFilter (filtering d s).filter info = true ↔
      Stands (s.take dglNameLen) info.name := by
  have hne : (filtering d s).filter ≠ [] := stored_ne_nil hs
  rw [passesFilter, if_neg hne, if_neg hh]
  simp only [filtering, Bool.and_eq_true, decide_eq_true_eq, dglStrcasestr_isSome,
    and_iff_right_iff_imp]
  exact name_ne_nil_of_stands (stored_ne_nil hs)

/-- On a harmless pair the three tests say whether the text stands in the name. -/
theorem harmless_tests (hs : s ≠ []) {name : Text} (h : Harmless s name) :
    (nameHit name s = true ↔ Stands s name) ∧ (Stands (s.take dglNameLen) name ↔ Stands s name) := by
  constructor
  · refine ⟨fun hhit => ?_, nameHit_of_stands hs⟩
    exact stands_iff_letters.mpr (h.punctuation ((nameHit_iff_occurs hs).mp hhit))
  · refine ⟨fun hcut => ?_, stands_take dglNameLen⟩
    by_cases hlen : dglNameLen < s.length
    · exact stands_iff_letters.mpr (h.cut hlen (stands_iff_letters.mp hcut))
    · rwa [List.take_of_length_le (by omega)] at hcut

theorem resolves_iff (hs : s ≠ []) (hl : d.scanList ≠ [])
    (h : ∀ r ∈ d.scanList, Harmless s r.name) :
    Resolves (Stands s) d.scanList (bleDongleFind d s) ↔ Means d s := by
  by_cases hn : NameText s
  · refine iff_of_true ?_ fun hno => absurd hn hno
    exact resolves_congr (fun r hr => (harmless_tests hs (h r hr)).1) (bleDongleFind_name hn)
  · rw [bleDongleFind_placed hs hl hn]
    exact ⟨fun h _ => h, fun h => h hn⟩

theorem harmless_of_matchersAgree (hs : s ≠ []) (h : MatchersAgree d s) {r : ScanRec}
    (hr : r ∈ d.scanList) : Harmless s r.name where
  punctuation := fun hocc => by
    have htest := (h.test r hr).mp ((nameHit_iff_occurs hs).mpr hocc)
    exact stands_iff_letters.mp (dglStrcasestr_isSome.mp htest)
  cut := fun _ hcut => by
    have hwatch := h.watch r hr ⟨r.addr, r.addrType, r.rssi, true, r.name⟩ rfl
    rw [watchHit_watching hs] at hwatch
    have htest := (h.test r hr).mp (hwatch.mp (stands_iff_letters.mpr hcut))
    exact stands_iff_letters.mp (dglStrcasestr_isSome.mp htest)

theorem not_matchersAgree_nil (hl : d.scanList ≠ []) : ¬ MatchersAgree d [] := by
  intro h
  obtain ⟨r, hr⟩ := List.exists_mem_of_ne_nil _ hl
  have hnone := h.resolves
  rw [bleDongleFind, if_pos (Or.inl rfl)] at hnone
  exact hnone r hr ⟨0, Nat.zero_le _, List.nil_prefix⟩

theorem matchersAgree_iff (hs : s ≠ []) (hl : d.scanList ≠ []) :
    MatchersAgree d s ↔ (∀ r ∈ d.scanList, Harmless s r.name) ∧ Means d s := by
  constructor
  · intro h
    have hall : ∀ r ∈ d.scanList, Harmless s r.name := fun r hr => harmless_of_matchersAgree hs h hr
    exact ⟨hall, (resolves_iff hs hl hall).mp h.resolves⟩
  · rintro ⟨hall, hmeans⟩
    constructor
    · intro r hr
      rw [(harmless_tests hs (hall r hr)).1, dglStrcasestr_isSome]
    · intro r hr info hi
      rw [watchHit_watching hs, hi, (harmless_tests hs (hall r hr)).1, (harmless_tests hs (hall r hr)).2]
    · intro hh r hr info hi
      rw [passesFilter_filtering hs hh, hi, (harmless_tests hs (hall r hr)).1,
        (harmless_tests hs (hall r hr)).2]
    · exact (resolves_iff hs hl hall).mpr hmeans

theorem matchersAgree_of_empty (hl : d.scanList = []) : MatchersAgree d s := by
  constructor
  · intro r hr
    rw [hl] at hr
    cases hr
  · intro r hr
    rw [hl] at hr
    cases hr
  · intro _ r hr
    rw [hl] at hr
    cases hr
  · rw [bleDongleFind_nil hl, hl]
    exact fun r hr => absurd hr List.not_mem_nil

end Agreement

/-- `dgl_strcasestr` finds the first occurrence; the other matchers agree with it exactly when the list is
empty, or the text is not empty, no punctuation and no cut makes it stand in a name, and it means no other
entry by place or address. -/
theorem name_matching_iff (d : Dongle) (s : Text) :
    (∀ needle hay, FindsFirst needle hay (dglStrcasestr needle hay)) ∧ MatchersAgree d s ↔
      d.scanList = [] ∨ s ≠ [] ∧ (∀ r ∈ d.scanList, Harmless s r.name) ∧ Means d s := by
  rw [and_iff_right dglStrcasestr_spec]
  by_cases hl : d.scanList = []
  · exact iff_of_true (matchersAgree_of_empty hl) (Or.inl hl)
  · rw [or_iff_right hl]
    by_cases hs : s = []
    · subst hs
      exact iff_of_false (not_matchersAgree_nil hl) fun h => h.1 rfl
    · rw [and_iff_right hs]
      exact matchersAgree_iff hs hl

def bracketed : Dongle :=
  { boot dglRelease with scanList := [⟨fun _ => 1, 0, -40, AtCmds.bytes "RK[1]"⟩] }

theorem brace_finds_bracket :
    bleDongleFind bracketed (AtCmds.bytes "rk\x7b1\x7d") = some 0 ∧
      dglStrcasestr (AtCmds.bytes "rk\x7b1\x7d") (AtCmds.bytes "RK[1]") = none ∧
      ¬ MatchersAgree bracketed (AtCmds.bytes "rk\x7b1\x7d") := by
  have hmiss : dglStrcasestr (AtCmds.bytes "rk\x7b1\x7d") (AtCmds.bytes "RK[1]") = none := by decide
  have hfind : nameHit (AtCmds.bytes "RK[1]") (AtCmds.bytes "rk\x7b1\x7d") = true := by decide
  refine ⟨by rfl, hmiss, fun h => ?_⟩
  have htest := (h.test ⟨fun _ => 1, 0, -40, AtCmds.bytes "RK[1]"⟩ List.mem_cons_self).mp hfind
  rw [hmiss] at htest
  cases htest

end AtNode.Central
