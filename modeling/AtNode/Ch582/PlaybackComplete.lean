import AtNode.Ch582.Playback

/-!
# Completeness of key playback

What is left of a queue is a function of the state, and every tick plays the front of what is left
of the queue it serves. The text is served first; when it ends no tick is scheduled for the reports
that wait in the other queue. A run is complete in all its states exactly when no command is
accepted for one queue while the other still has something to play.
-/

namespace AtNode.Playback

open Hid Run

/-- Every queue's last command plays its script: whenever something of it is left a tick is
scheduled, and after enough ticks with no further command the whole of it has been played. -/
structure Complete (h : History) : Prop where
  armed : ∀ k, (h.job k).played ≠ (h.job k).script → h.st.timer ≠ none
  finishes : ∃ n, ∀ paces : List ℕ, paces.length = n →
    ∀ k, ((final step h (paces.map .tick)).job k).played = (h.job k).script

/-- An accepted tap or sequence finds no text playing, an accepted text no report waiting. -/
def Uninterrupting (h : History) : Event → Prop
  | .tap argv => (atCmdTap h.st argv).2.ok = true → h.st.keystrActive = false
  | .keySeq argv => (atCmdKeySeq h.st argv).2.ok = true → h.st.keystrActive = false
  | .keyStr argv => (atCmdKeyStr h.st argv).2.ok = true → h.st.seqBuf.length ≤ h.st.seqIdx
  | _ => True

def seqLeft (s : State) : List Out :=
  if s.seqIdx < s.seqBuf.length then seqScript (s.seqBuf.drop s.seqIdx) else []

/-- In the middle of a stroke the release is left, then the following characters. -/
def strLeft (s : State) : List Out :=
  if s.keystrActive then
    if s.keystrIdx % 2 = 1 then .flush .rest :: strScript (s.keystrBuf.drop (s.keystrIdx / 2 + 1))
    else strScript (s.keystrBuf.drop (s.keystrIdx / 2))
  else []

def left (s : State) : Kind → List Out
  | .seq => seqLeft s
  | .str => strLeft s

/-- The index of a text never passes its end, and stands on a character while a release is due. -/
def InText (s : State) : Prop := s.keystrActive = true → s.keystrIdx ≤ 2 * s.keystrBuf.length

/-- The accounts of both queues are right. -/
structure Accounted (h : History) : Prop where
  inText : InText h.st
  job : ∀ k, (h.job k).script = (h.job k).played ++ left h.st k

/-- One queue at a time has something to play, and then a tick is scheduled. -/
structure Scheduled (s : State) : Prop where
  exclusive : s.keystrActive = true → s.seqBuf.length ≤ s.seqIdx
  armed : s.keystrActive = true ∨ s.seqIdx < s.seqBuf.length → s.timer ≠ none

structure Inv (h : History) : Prop where
  accounted : Accounted h
  scheduled : Scheduled h.st

theorem seqLeft_ne_nil_iff (s : State) : seqLeft s ≠ [] ↔ s.seqIdx < s.seqBuf.length := by
  unfold seqLeft seqScript
  split <;> simp [*]

theorem strLeft_ne_nil_iff (s : State) : strLeft s ≠ [] ↔ s.keystrActive = true := by
  unfold strLeft strScript
  split
  · split <;> simp [*]
  · simp [*]

theorem strScript_cons (c : UInt8) (text : List UInt8) :
    strScript (c :: text) = (strokeOf c).map .flush ++ strScript text := by
  rw [strScript, List.flatMap_cons, List.map_append, List.append_assoc, strScript]

theorem strLeft_inactive {s : State} (h : s.keystrActive = false) : strLeft s = [] := by
  simp [strLeft, h]

theorem strLeft_even {s : State} (h : s.keystrActive = true) (he : s.keystrIdx % 2 = 0) :
    strLeft s = strScript (s.keystrBuf.drop (s.keystrIdx / 2)) := by
  simp [strLeft, h, he]

theorem strLeft_odd {s : State} (h : s.keystrActive = true) (ho : s.keystrIdx % 2 = 1) :
    strLeft s = .flush .rest :: strScript (s.keystrBuf.drop (s.keystrIdx / 2 + 1)) := by
  simp [strLeft, h, ho]

theorem seqLeft_lt {s : State} (h : s.seqIdx < s.seqBuf.length) :
    seqLeft s = seqScript (s.seqBuf.drop s.seqIdx) := if_pos h

theorem seqLeft_ge {s : State} (h : s.seqBuf.length ≤ s.seqIdx) : seqLeft s = [] :=
  if_neg (Nat.not_lt_of_le h)

theorem strLeft_tick (pace : ℕ) {s : State} (hs : InText s) (ha : s.keystrActive = true) :
    strLeft s = (kbSeqProcessEvent pace s).2 ++ strLeft (kbSeqProcessEvent pace s).1 := by
  have hidx := hs ha
  by_cases hlt : s.keystrIdx / 2 < s.keystrBuf.length
  · have hcons := List.drop_eq_getElem_cons hlt
    rcases Nat.mod_two_eq_zero_or_one s.keystrIdx with he | ho
    · have hdiv : (s.keystrIdx + 1) / 2 = s.keystrIdx / 2 := by omega
      rw [tick_press pace ha hlt he, strLeft_even ha he, hcons, strScript_cons,
        strLeft_odd (s := { s with keystrIdx := s.keystrIdx + 1, timer := some pace }) ha
          (by simp; omega)]
      simp [strokeOf, hdiv]
    · have hdiv : (s.keystrIdx + 1) / 2 = s.keystrIdx / 2 + 1 := by omega
      rw [tick_release pace ha hlt ho, strLeft_odd ha ho,
        strLeft_even (s := { s with keystrIdx := s.keystrIdx + 1, timer := some pace }) ha
          (by simp; omega)]
      simp [hdiv]
  · rw [tick_end pace ha (Nat.le_of_not_lt hlt), strLeft_even ha (by omega),
      List.drop_eq_nil_of_le (Nat.le_of_not_lt hlt)]
    rfl

theorem seqLeft_tick (pace : ℕ) {s : State} (ha : s.keystrActive = false) :
    seqLeft s = (kbSeqProcessEvent pace s).2 ++ seqLeft (kbSeqProcessEvent pace s).1 := by
  by_cases hlt : s.seqIdx < s.seqBuf.length
  · rw [seqLeft_lt hlt, List.drop_eq_getElem_cons hlt]
    by_cases hmore : s.seqIdx + 1 < s.seqBuf.length
    · rw [tick_more pace ha hlt hmore,
        seqLeft_lt (s := { s with seqIdx := s.seqIdx + 1, timer := some s.seqDelayMs }) hmore]
      rfl
    · have hge := Nat.le_of_not_lt hmore
      rw [tick_last pace ha hlt hmore, List.drop_eq_nil_of_le hge,
        seqLeft_ge (s := { s with seqIdx := s.seqIdx + 1, timer := none }) hge]
      rfl
  · have hge := Nat.le_of_not_lt hlt
    rw [tick_idle pace ha hge, seqLeft_ge hge, seqLeft_ge (s := { s with timer := none }) hge]
    rfl

/-- A tick of one queue does not touch the other. -/
theorem tick_of_active (pace : ℕ) {s : State} (ha : s.keystrActive = true) :
    (kbSeqProcessEvent pace s).1.seqBuf = s.seqBuf ∧
      (kbSeqProcessEvent pace s).1.seqIdx = s.seqIdx := by
  unfold kbSeqProcessEvent
  rw [if_pos ha]
  split <;> exact ⟨rfl, rfl⟩

theorem tick_of_inactive (pace : ℕ) {s : State} (ha : s.keystrActive = false) :
    (kbSeqProcessEvent pace s).1.keystrActive = false := by
  unfold kbSeqProcessEvent
  rw [if_neg (by simp [ha])]
  split
  · exact ha
  · split <;> exact ha

theorem inText_tick (pace : ℕ) {s : State} (hs : InText s) :
    InText (kbSeqProcessEvent pace s).1 := by
  cases ha : s.keystrActive with
  | true =>
    have hidx := hs ha
    by_cases hlt : s.keystrIdx / 2 < s.keystrBuf.length
    · rcases Nat.mod_two_eq_zero_or_one s.keystrIdx with he | ho
      · rw [tick_press pace ha hlt he]
        intro _
        change s.keystrIdx + 1 ≤ 2 * s.keystrBuf.length
        omega
      · rw [tick_release pace ha hlt ho]
        intro _
        change s.keystrIdx + 1 ≤ 2 * s.keystrBuf.length
        omega
    · rw [tick_end pace ha (Nat.le_of_not_lt hlt)]
      exact fun h => absurd h (by simp)
  | false =>
    intro h
    exact absurd ((tick_of_inactive pace ha).symm.trans h) (by simp)

theorem left_tick (pace : ℕ) {s : State} (hs : InText s) (k : Kind) :
    left s k = (if k = playing s then (kbSeqProcessEvent pace s).2 else []) ++
      left (kbSeqProcessEvent pace s).1 k := by
  cases ha : s.keystrActive with
  | true =>
    cases k with
    | seq =>
      obtain ⟨hbuf, hidx⟩ := tick_of_active pace ha
      simp [left, playing, ha, seqLeft, hbuf, hidx]
    | str => simpa [left, playing, ha] using strLeft_tick pace hs ha
  | false =>
    cases k with
    | seq => simpa [left, playing, ha] using seqLeft_tick pace ha
    | str =>
      simp [left, playing, ha, strLeft_inactive ha,
        strLeft_inactive (tick_of_inactive pace ha)]

/-- What an accepted tap or sequence leaves: its reports queued, the text as it was. -/
structure SeqLoaded (s s' : State) (reports : List Report) : Prop where
  seqBuf : s'.seqBuf = reports
  seqIdx : s'.seqIdx = 0
  nonempty : reports ≠ []
  timer : s'.timer ≠ none
  keystrBuf : s'.keystrBuf = s.keystrBuf
  keystrIdx : s'.keystrIdx = s.keystrIdx
  keystrActive : s'.keystrActive = s.keystrActive

structure StrLoaded (s s' : State) (text : List UInt8) : Prop where
  keystrBuf : s'.keystrBuf = text
  keystrIdx : s'.keystrIdx = 0
  keystrActive : s'.keystrActive = true
  timer : s'.timer ≠ none
  seqBuf : s'.seqBuf = s.seqBuf
  seqIdx : s'.seqIdx = s.seqIdx

theorem atCmdTap_cases (s : State) (argv : List (List UInt8)) :
    (atCmdTap s argv).2.ok = true ∧
        SeqLoaded s (atCmdTap s argv).1 [reportOf ((argv.drop 2).take 7), .rest] ∨
      (atCmdTap s argv).2.ok = false ∧ (atCmdTap s argv).1 = s := by
  unfold atCmdTap
  split
  · exact Or.inr ⟨rfl, rfl⟩
  · exact Or.inl ⟨rfl, rfl, rfl, List.cons_ne_nil _ _, by simp, rfl, rfl, rfl⟩

theorem seqReports_ne_nil {n : ℕ} (hn : 0 < n) (args : List (List UInt8)) :
    seqReports n args ≠ [] := by
  cases n with
  | zero => exact absurd hn (Nat.lt_irrefl 0)
  | succ n => exact List.cons_ne_nil _ _

theorem atCmdKeySeq_cases (s : State) (argv : List (List UInt8)) :
    (atCmdKeySeq s argv).2.ok = true ∧
        SeqLoaded s (atCmdKeySeq s argv).1 (seqReports ((argv.length - 2) / 7) (argv.drop 2)) ∨
      (atCmdKeySeq s argv).2.ok = false ∧ (atCmdKeySeq s argv).1 = s := by
  by_cases hbad : argv.length - 2 < 7 ∨ (argv.length - 2) % 7 ≠ 0
  · refine Or.inr ?_
    rw [atCmdKeySeq, if_pos hbad]
    exact ⟨rfl, rfl⟩
  · by_cases hmax : seqMaxReports < (argv.length - 2) / 7
    · refine Or.inr ?_
      rw [atCmdKeySeq, if_neg hbad, if_pos hmax]
      exact ⟨rfl, rfl⟩
    · refine Or.inl ?_
      rw [atCmdKeySeq, if_neg hbad, if_neg hmax]
      exact ⟨rfl, rfl, rfl, seqReports_ne_nil (by omega) _, by simp, rfl, rfl, rfl⟩

theorem atCmdKeyStr_cases (s : State) (argv : List (List UInt8)) :
    (atCmdKeyStr s argv).2.ok = true ∧
        StrLoaded s (atCmdKeyStr s argv).1 (keystrCopy keystrMax (argv.getD 1 [])).1 ∨
      (atCmdKeyStr s argv).2.ok = false ∧ (atCmdKeyStr s argv).1 = s := by
  rcases argv with _ | ⟨name, _ | ⟨arg, rest⟩⟩
  · exact Or.inr ⟨rfl, rfl⟩
  · exact Or.inr ⟨rfl, rfl⟩
  · exact Or.inl ⟨rfl, rfl, rfl, rfl, by simp [atCmdKeyStr], rfl, rfl⟩

theorem SeqLoaded.left_eq {s s' : State} {reports : List Report} (h : SeqLoaded s s' reports)
    (k : Kind) : left s' k = if k = .seq then seqScript reports else left s k := by
  cases k with
  | seq =>
    have hlt : s'.seqIdx < s'.seqBuf.length := by
      rw [h.seqIdx, h.seqBuf]
      exact List.length_pos_of_ne_nil h.nonempty
    rw [if_pos rfl, left, seqLeft_lt hlt, h.seqBuf, h.seqIdx, List.drop_zero]
  | str =>
    simp only [left, strLeft, h.keystrBuf, h.keystrIdx, h.keystrActive, reduceCtorEq, if_false]

theorem StrLoaded.left_eq {s s' : State} {text : List UInt8} (h : StrLoaded s s' text)
    (k : Kind) : left s' k = if k = .str then strScript text else left s k := by
  cases k with
  | str =>
    rw [if_pos rfl, left, strLeft_even h.keystrActive (by rw [h.keystrIdx]), h.keystrBuf,
      h.keystrIdx]
    rfl
  | seq => simp only [left, seqLeft, h.seqBuf, h.seqIdx, reduceCtorEq, if_false]

theorem accept_refused {h : History} {k : Kind} {script : List Out} {q : State × Reply}
    (hok : q.2.ok = false) (hst : q.1 = h.st) : accept h k script q = h := by
  simp [accept, hok, hst]

theorem accounted_accept {h : History} {k : Kind} {script : List Out} {q : State × Reply}
    (ha : Accounted h) (hok : q.2.ok = true) (hin : InText q.1)
    (hleft : ∀ j, left q.1 j = if j = k then script else left h.st j) :
    Accounted (accept h k script q) := by
  refine ⟨hin, fun j => ?_⟩
  simp only [accept, hok, if_true, hleft]
  by_cases hj : j = k
  · subst hj
    simp
  · simp only [Function.update_of_ne hj, if_neg hj]
    exact ha.job j

theorem accounted_play {h : History} (pace : ℕ) (ha : Accounted h) :
    Accounted (play h (kbSeqProcessEvent pace h.st)) := by
  refine ⟨inText_tick pace ha.inText, fun k => ?_⟩
  have hk := ha.job k
  rw [left_tick pace ha.inText k, ← List.append_assoc] at hk
  simp only [play]
  by_cases hj : k = playing h.st
  · subst hj
    simpa using hk
  · simpa [hj, Function.update_of_ne hj] using hk

theorem scheduled_tick (pace : ℕ) {s : State} (hs : Scheduled s) :
    Scheduled (kbSeqProcessEvent pace s).1 := by
  cases ha : s.keystrActive with
  | true =>
    have hseq := hs.exclusive ha
    by_cases hlt : s.keystrIdx / 2 < s.keystrBuf.length
    · rcases Nat.mod_two_eq_zero_or_one s.keystrIdx with he | ho
      · rw [tick_press pace ha hlt he]
        exact ⟨fun _ => hseq, fun _ => by simp⟩
      · rw [tick_release pace ha hlt ho]
        exact ⟨fun _ => hseq, fun _ => by simp⟩
    · rw [tick_end pace ha (Nat.le_of_not_lt hlt)]
      refine ⟨fun _ => hseq, ?_⟩
      rintro (h | h)
      · exact absurd h (by simp)
      · exact absurd hseq (Nat.not_le_of_lt h)
  | false =>
    have hinactive := tick_of_inactive pace ha
    refine ⟨fun h => absurd (hinactive.symm.trans h) (by simp), ?_⟩
    rintro (h | h)
    · exact absurd (hinactive.symm.trans h) (by simp)
    · by_cases hlt : s.seqIdx < s.seqBuf.length
      · by_cases hmore : s.seqIdx + 1 < s.seqBuf.length
        · rw [tick_more pace ha hlt hmore]
          simp
        · rw [tick_last pace ha hlt hmore] at h
          exact absurd h hmore
      · rw [tick_idle pace ha (Nat.le_of_not_lt hlt)] at h
        exact absurd h hlt

theorem inv_tick (pace : ℕ) {h : History} (hi : Inv h) : Inv (step h (.tick pace)) := by
  simp only [step]
  split
  · exact hi
  · exact ⟨accounted_play pace hi.accounted, scheduled_tick pace hi.scheduled⟩

theorem SeqLoaded.inText {s s' : State} {reports : List Report} (hl : SeqLoaded s s' reports)
    (hs : InText s) : InText s' := by
  intro ha
  rw [hl.keystrIdx, hl.keystrBuf]
  exact hs (hl.keystrActive.symm.trans ha)

theorem StrLoaded.inText {s s' : State} {text : List UInt8} (hl : StrLoaded s s' text) :
    InText s' := by
  intro _
  rw [hl.keystrIdx]
  exact Nat.zero_le _

theorem inv_accept_seq {h : History} {reports : List Report} {q : State × Reply} (hi : Inv h)
    (hok : q.2.ok = true) (hl : SeqLoaded h.st q.1 reports) (hp : h.st.keystrActive = false) :
    Inv (accept h .seq (seqScript reports) q) := by
  refine ⟨accounted_accept hi.accounted hok (hl.inText hi.accounted.inText) hl.left_eq, ?_, ?_⟩
  · intro ha
    exact absurd ((hl.keystrActive.trans hp).symm.trans ha) (by simp)
  · exact fun _ => hl.timer

theorem inv_accept_str {h : History} {text : List UInt8} {q : State × Reply} (hi : Inv h)
    (hok : q.2.ok = true) (hl : StrLoaded h.st q.1 text)
    (hp : h.st.seqBuf.length ≤ h.st.seqIdx) : Inv (accept h .str (strScript text) q) := by
  refine ⟨accounted_accept hi.accounted hok hl.inText hl.left_eq, ?_, fun _ => hl.timer⟩
  intro _
  simp only [accept, hl.seqBuf, hl.seqIdx]
  exact hp

theorem inv_boot : Inv boot := by
  refine ⟨⟨fun h => absurd h (by simp [boot]), fun k => ?_⟩, ?_, ?_⟩
  · cases k <;> rfl
  · simp [boot]
  · simp [boot]

theorem inv_step (h : History) (e : Event) (hi : Inv h) (hp : Uninterrupting h e) :
    Inv (step h e) := by
  cases e with
  | tap argv =>
    rcases atCmdTap_cases h.st argv with ⟨hok, hl⟩ | ⟨hok, hst⟩
    · exact inv_accept_seq hi hok hl (hp hok)
    · simpa only [step, accept_refused hok hst] using hi
  | keySeq argv =>
    rcases atCmdKeySeq_cases h.st argv with ⟨hok, hl⟩ | ⟨hok, hst⟩
    · exact inv_accept_seq hi hok hl (hp hok)
    · simpa only [step, accept_refused hok hst] using hi
  | keyStr argv =>
    rcases atCmdKeyStr_cases h.st argv with ⟨hok, hl⟩ | ⟨hok, hst⟩
    · exact inv_accept_str hi hok hl (hp hok)
    · simpa only [step, accept_refused hok hst] using hi
  | key argv =>
    simp only [step]
    split
    · exact hi
    · exact ⟨⟨hi.accounted.inText, hi.accounted.job⟩, hi.scheduled⟩
  | mod argv =>
    simp only [step]
    split
    · exact hi
    · exact ⟨⟨hi.accounted.inText, hi.accounted.job⟩, hi.scheduled⟩
  | tick pace => exact inv_tick pace hi

/-- An upper bound for the ticks a scheduled state still takes. -/
def ticksLeft (s : State) : ℕ :=
  if s.keystrActive then 2 * s.keystrBuf.length + 1 - s.keystrIdx
  else s.seqBuf.length - s.seqIdx

theorem ticksLeft_tick (pace : ℕ) {s : State} (hs : Scheduled s) :
    ticksLeft (kbSeqProcessEvent pace s).1 ≤ ticksLeft s - 1 := by
  cases ha : s.keystrActive with
  | true =>
    have hseq := hs.exclusive ha
    by_cases hlt : s.keystrIdx / 2 < s.keystrBuf.length
    · rcases Nat.mod_two_eq_zero_or_one s.keystrIdx with he | ho
      · rw [tick_press pace ha hlt he]
        simp only [ticksLeft, ha, if_true]
        omega
      · rw [tick_release pace ha hlt ho]
        simp only [ticksLeft, ha, if_true]
        omega
    · rw [tick_end pace ha (Nat.le_of_not_lt hlt)]
      simp only [ticksLeft, Bool.false_eq_true, if_false]
      omega
  | false =>
    by_cases hlt : s.seqIdx < s.seqBuf.length
    · by_cases hmore : s.seqIdx + 1 < s.seqBuf.length
      · rw [tick_more pace ha hlt hmore]
        simp only [ticksLeft, ha, Bool.false_eq_true, if_false]
        omega
      · rw [tick_last pace ha hlt hmore]
        simp only [ticksLeft, ha, Bool.false_eq_true, if_false]
        omega
    · rw [tick_idle pace ha (Nat.le_of_not_lt hlt)]
      simp only [ticksLeft, ha, Bool.false_eq_true, if_false]
      omega

theorem left_nil_of_ticksLeft {s : State} (hs : InText s) (h0 : ticksLeft s = 0) (k : Kind) :
    left s k = [] := by
  unfold ticksLeft at h0
  cases ha : s.keystrActive with
  | true =>
    have hidx := hs ha
    rw [ha, if_pos rfl] at h0
    omega
  | false =>
    rw [ha, if_neg Bool.false_ne_true] at h0
    cases k with
    | seq => exact seqLeft_ge (by omega)
    | str => exact strLeft_inactive ha

theorem step_tick_script (h : History) (pace : ℕ) (k : Kind) :
    ((step h (.tick pace)).job k).script = (h.job k).script := by
  simp only [step]
  split
  · rfl
  · by_cases hk : k = playing h.st
    · subst hk
      simp [play]
    · simp [play, Function.update_of_ne hk]

theorem ticksLeft_step (pace : ℕ) {h : History} (hi : Inv h) :
    ticksLeft (step h (.tick pace)).st ≤ ticksLeft h.st - 1 := by
  simp only [step]
  split
  · rename_i hnone
    have hidle := mt hi.scheduled.armed (not_not.mpr hnone)
    rw [not_or] at hidle
    unfold ticksLeft
    rw [if_neg hidle.1]
    omega
  · exact ticksLeft_tick pace hi.scheduled

/-- From a state of the invariant the ticks alone play everything that is left. -/
theorem finishes_of_inv (paces : List ℕ) {h : History} (hi : Inv h)
    (hn : ticksLeft h.st ≤ paces.length) (k : Kind) :
    ((final step h (paces.map .tick)).job k).played = (h.job k).script := by
  induction paces generalizing h with
  | nil =>
    have hnil := left_nil_of_ticksLeft hi.accounted.inText (Nat.le_zero.mp hn) k
    have hk := hi.accounted.job k
    rw [hnil, List.append_nil] at hk
    exact hk.symm
  | cons pace paces ih =>
    have hle := ticksLeft_step pace hi
    have hr := ih (inv_tick pace hi) (by rw [List.length_cons] at hn; omega)
    rwa [step_tick_script] at hr

theorem complete_of_inv (h : History) (hi : Inv h) : Complete h := by
  refine ⟨?_, ticksLeft h.st, fun paces hlen k => finishes_of_inv paces hi hlen.ge k⟩
  intro k hne
  have hk := hi.accounted.job k
  have hleft : left h.st k ≠ [] := by
    intro hnil
    rw [hnil, List.append_nil] at hk
    exact hne hk.symm
  apply hi.scheduled.armed
  cases k with
  | seq => exact Or.inr ((seqLeft_ne_nil_iff h.st).mp hleft)
  | str => exact Or.inl ((strLeft_ne_nil_iff h.st).mp hleft)

/-- Reports wait behind a text, or with no tick scheduled: no tick will ever play them. -/
def Stuck (s : State) : Prop :=
  s.seqIdx < s.seqBuf.length ∧ (s.keystrActive = true ∨ s.timer = none)

theorem stuck_tick (pace : ℕ) {s : State} (hs : Stuck s) (ha : s.keystrActive = true) :
    Stuck (kbSeqProcessEvent pace s).1 := by
  obtain ⟨hlt, -⟩ := hs
  by_cases htext : s.keystrIdx / 2 < s.keystrBuf.length
  · rcases Nat.mod_two_eq_zero_or_one s.keystrIdx with he | ho
    · rw [tick_press pace ha htext he]
      exact ⟨hlt, Or.inl ha⟩
    · rw [tick_release pace ha htext ho]
      exact ⟨hlt, Or.inl ha⟩
  · rw [tick_end pace ha (Nat.le_of_not_lt htext)]
    exact ⟨hlt, Or.inr rfl⟩

theorem stuck_step (pace : ℕ) {h : History} (ha : Accounted h) (hs : Stuck h.st) :
    Accounted (step h (.tick pace)) ∧ Stuck (step h (.tick pace)).st := by
  simp only [step]
  split
  · exact ⟨ha, hs⟩
  · rename_i hne
    exact ⟨accounted_play pace ha, stuck_tick pace hs (hs.2.resolve_right hne)⟩

theorem unfinished_of_stuck (paces : List ℕ) {h : History} (ha : Accounted h) (hs : Stuck h.st) :
    ((final step h (paces.map .tick)).job .seq).played ≠ (h.job .seq).script := by
  induction paces generalizing h with
  | nil =>
    intro heq
    have hk := ha.job .seq
    change (h.job .seq).played = _ at heq
    rw [heq] at hk
    exact (seqLeft_ne_nil_iff h.st).mpr hs.1 (List.self_eq_append_right.mp hk)
  | cons pace paces ih =>
    obtain ⟨ha', hs'⟩ := stuck_step pace ha hs
    have hr := ih ha' hs'
    rwa [step_tick_script] at hr

theorem not_complete_of_stuck {h : History} (ha : Accounted h) (hs : Stuck h.st) :
    ¬ Complete h := by
  rintro ⟨-, n, hn⟩
  exact unfinished_of_stuck (List.replicate n 0) ha hs (hn _ List.length_replicate .seq)

theorem stuck_accept_seq {h : History} {reports : List Report} {q : State × Reply}
    (ha : Accounted h) (hok : q.2.ok = true) (hl : SeqLoaded h.st q.1 reports)
    (hactive : ¬ h.st.keystrActive = false) : ¬ Complete (accept h .seq (seqScript reports) q) := by
  apply not_complete_of_stuck (accounted_accept ha hok (hl.inText ha.inText) hl.left_eq)
  refine ⟨?_, Or.inl (hl.keystrActive.trans (Bool.not_eq_false _ ▸ hactive))⟩
  simp only [accept, hl.seqIdx, hl.seqBuf]
  exact List.length_pos_of_ne_nil hl.nonempty

theorem stuck_accept_str {h : History} {text : List UInt8} {q : State × Reply}
    (ha : Accounted h) (hok : q.2.ok = true) (hl : StrLoaded h.st q.1 text)
    (hwait : ¬ h.st.seqBuf.length ≤ h.st.seqIdx) :
    ¬ Complete (accept h .str (strScript text) q) := by
  apply not_complete_of_stuck (accounted_accept ha hok hl.inText hl.left_eq)
  refine ⟨?_, Or.inl hl.keystrActive⟩
  simp only [accept, hl.seqIdx, hl.seqBuf]
  exact Nat.lt_of_not_le hwait

theorem not_complete_of_interrupting (h : History) (e : Event) (hi : Inv h)
    (hp : ¬ Uninterrupting h e) : ¬ Complete (step h e) := by
  cases e with
  | tap argv =>
    rcases atCmdTap_cases h.st argv with ⟨hok, hl⟩ | ⟨hok, -⟩
    · exact stuck_accept_seq hi.accounted hok hl fun hoff => hp fun _ => hoff
    · exact absurd (fun hok' => absurd (hok.symm.trans hok') Bool.false_ne_true) hp
  | keySeq argv =>
    rcases atCmdKeySeq_cases h.st argv with ⟨hok, hl⟩ | ⟨hok, -⟩
    · exact stuck_accept_seq hi.accounted hok hl fun hoff => hp fun _ => hoff
    · exact absurd (fun hok' => absurd (hok.symm.trans hok') Bool.false_ne_true) hp
  | keyStr argv =>
    rcases atCmdKeyStr_cases h.st argv with ⟨hok, hl⟩ | ⟨hok, -⟩
    · exact stuck_accept_str hi.accounted hok hl fun hle => hp fun _ => hle
    · exact absurd (fun hok' => absurd (hok.symm.trans hok') Bool.false_ne_true) hp
  | key argv => exact absurd trivial hp
  | mod argv => exact absurd trivial hp
  | tick pace => exact absurd trivial hp

/-- Every accepted command of a run is played completely, in every state of the run, if and only if
no command is accepted for one queue while the other still has something to play. -/
theorem complete_iff_uninterrupting (es : List Event) :
    Always step Complete boot es ↔ Along step Uninterrupting boot es :=
  always_iff_along complete_of_inv inv_step not_complete_of_interrupting inv_boot

/-- `AT+KEY_STR=a`, and `AT+TAP` of a key before the text has ended. -/
theorem tap_during_text_incomplete : ¬ ∀ es : List Event, Always step Complete boot es := by
  intro hall
  have hi := inv_step boot (.keyStr [[], ['a'.toUInt8]]) inv_boot fun _ => Nat.le_refl 0
  apply not_complete_of_interrupting _ (.tap [[], ['0'.toUInt8], ['0'.toUInt8]]) hi
  · exact fun hp => absurd (hp rfl) (by decide)
  · exact (hall [.keyStr [[], ['a'.toUInt8]], .tap [[], ['0'.toUInt8], ['0'.toUInt8]]]).final

end AtNode.Playback
