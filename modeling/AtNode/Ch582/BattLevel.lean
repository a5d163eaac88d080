import AtNode.Ch582.HidLinks

/-!
# The battery level

The hosts that asked for the level are told when the task measures another one. The task's timer is one for
all hosts: the last host to write its configuration starts or stops it. A read measures too, and what it
finds is told to nobody else.
-/

namespace AtNode.HidDev

variable {n : ℕ} {k : Hid n} {h : UInt16} {e : Event}

section Task

/-- What an event is to the battery task. -/
inductive Kind where
  | switch (on : Bool)
  | read (measured : UInt8)
  | expire
  | turn (measured : UInt8)
  | other

def Event.kind : Event → Kind
  | .write _ .battCccd value _ ccc => if ccc = success then .switch (charCfg value ≠ 0) else .other
  | .read _ .battLevel 0 _ measured => .read measured
  | .expire => .expire
  | .battTurn measured _ => .turn measured
  | _ => .other

/-- The task on its own. -/
structure Task where
  level : UInt8
  timer : Bool
  due : Bool

def Task.step (t : Task) : Kind → Task
  | .switch on => { t with timer := on }
  | .read measured => { t with level := measured }
  | .expire => if t.timer then { t with timer := false, due := true } else t
  | .turn measured => if t.due then ⟨measured, true, false⟩ else t
  | .other => t

def task (k : Hid n) : Task := ⟨k.level, k.timer, k.due⟩

theorem SameNews.task {k' : Hid n} (hs : SameNews k k') : task k' = task k := by
  unfold HidDev.task
  rw [hs.level, hs.timer, hs.due]

theorem measLevel_level (measured : UInt8) (ok : UInt16 → Bool) : (measLevel k measured ok).level = measured := by
  unfold measLevel
  split_ifs with hne
  · rfl
  · exact (not_not.mp hne).symm

theorem task_write (conn : UInt16) (a : Attr) (value : List UInt8) (offset : ℕ) (ccc : UInt8) :
    task (step k (.write conn a value offset ccc)) =
      (task k).step (Event.kind (.write conn a value offset ccc)) := by
  change task (if a.battery then (battWrite k conn a value ccc).1
    else (writeAttr k conn a value offset ccc).1) = _
  by_cases ha : a = .battCccd
  · subst ha
    change task (battWrite k conn .battCccd value ccc).1 =
      (task k).step (if ccc = success then .switch (charCfg value ≠ 0) else .other)
    rw [battWrite, if_pos rfl]
    split_ifs <;> rfl
  have hkind : Event.kind (.write conn a value offset ccc) = .other := by
    cases a <;> first | rfl | exact absurd rfl ha
  rw [hkind]
  by_cases hbatt : a.battery = true
  · have huuid : a.uuid ≠ Attr.battCccd.uuid := by
      rw [ne_eq, show Attr.battCccd.uuid = Attr.keyInCccd.uuid from rfl, uuid_cccd]
      rintro (rfl | rfl | rfl)
      · exact Bool.false_ne_true hbatt
      · exact Bool.false_ne_true hbatt
      · exact ha rfl
    rw [if_pos hbatt, battWrite, if_neg huuid]
    rfl
  · rw [if_neg hbatt]
    exact (same_writeAttr a value offset ccc).2.task

theorem task_read (conn : UInt16) (a : Attr) (offset maxLen : ℕ) (measured : UInt8) :
    task (step k (.read conn a offset maxLen measured)) =
      (task k).step (Event.kind (.read conn a offset maxLen measured)) := by
  cases offset <;> cases a <;> rfl

theorem news_report (conn : UInt16) (id type : UInt8) (data : List UInt8) (noti bonds : UInt8) :
    task (report k conn id type data noti bonds).1 = task k ∧
      (report k conn id type data noti bonds).1.told = k.told := by
  have hnoti (attr : Attr) : task (sendNoti k conn attr data noti).1 = task k ∧
      (sendNoti k conn attr data noti).1.told = k.told := by
    unfold sendNoti
    split_ifs <;> exact ⟨rfl, rfl⟩
  unfold report
  by_cases hsecure : connSecure k conn = true
  · rw [if_pos hsecure]
    unfold sendReport
    split
    · split_ifs
      · exact hnoti _
      · exact ⟨rfl, rfl⟩
    · exact ⟨rfl, rfl⟩
  · rw [if_neg hsecure]
    split_ifs <;> exact ⟨rfl, rfl⟩

theorem task_step (e : Event) : task (step k e) = (task k).step e.kind := by
  cases e with
  | established conn intv lat gapState => exact (news_linkEstablished (k := k) intv lat).task
  | terminated conn gapState bonds => exact (news_linkTerminated (k := k) bonds).task
  | paired conn state status => exact (news_pairState state status).task
  | gapState gapState => rfl
  | params conn intv lat => exact (news_paramUpdate intv lat).task
  | report conn id type data noti bonds => exact (news_report conn id type data noti bonds).1
  | read conn attr offset maxLen measured => exact task_read conn attr offset maxLen measured
  | write conn attr value offset ccc => exact task_write conn attr value offset ccc
  | close => rfl
  | setCritical critical ok =>
    unfold step setCritical
    dsimp only
    split_ifs <;> rfl
  | expire =>
    unfold step Event.kind Task.step task
    dsimp only
    split_ifs <;> rfl
  | battTurn measured ok =>
    unfold step Event.kind Task.step battPeriodic
    dsimp only
    by_cases hdue : k.due = true
    · rw [if_pos hdue, if_pos (show (task k).due = true from hdue)]
      unfold task
      dsimp only
      rw [measLevel_level]
      unfold measLevel
      split_ifs <;> rfl
    · rw [if_neg hdue, if_neg (show ¬ (task k).due = true from hdue)]

/-- The hosts that a step tells the level. -/
def news (k : Hid n) : Event → List (UInt16 × UInt8)
  | .battTurn measured ok =>
    if k.due = true ∧ measured ≠ k.level then (battHosts k ok).map (·, measured) else []
  | .setCritical critical ok => if k.level < critical then (battHosts k ok).map (·, k.level) else []
  | _ => []

theorem told_step (e : Event) : (step k e).told = k.told ++ news k e := by
  cases e with
  | established conn intv lat gapState =>
    exact (news_linkEstablished (k := k) intv lat).told.trans (List.append_nil _).symm
  | terminated conn gapState bonds =>
    exact (news_linkTerminated (k := k) bonds).told.trans (List.append_nil _).symm
  | paired conn state status => exact (news_pairState state status).told.trans (List.append_nil _).symm
  | gapState gapState => exact (List.append_nil _).symm
  | params conn intv lat => exact (news_paramUpdate intv lat).told.trans (List.append_nil _).symm
  | report conn id type data noti bonds =>
    exact (news_report conn id type data noti bonds).2.trans (List.append_nil _).symm
  | read conn attr offset maxLen measured =>
    unfold step battRead news
    dsimp only
    split_ifs <;> exact (List.append_nil _).symm
  | write conn attr value offset ccc =>
    unfold step news
    dsimp only
    split_ifs
    · unfold battWrite
      split_ifs <;> exact (List.append_nil _).symm
    · exact (same_writeAttr attr value offset ccc).2.told.trans (List.append_nil _).symm
  | close => exact (List.append_nil _).symm
  | setCritical critical ok =>
    unfold step setCritical news
    dsimp only
    split_ifs
    · rfl
    · exact (List.append_nil _).symm
  | expire =>
    unfold step news
    dsimp only
    split_ifs <;> exact (List.append_nil _).symm
  | battTurn measured ok =>
    unfold step news
    dsimp only
    by_cases hdue : k.due = true
    · rw [if_pos hdue]
      by_cases hne : measured ≠ k.level
      · rw [if_pos ⟨hdue, hne⟩, battPeriodic, measLevel, if_pos hne]
        rfl
      · rw [if_neg fun h => hne h.2, battPeriodic, measLevel, if_neg hne]
        exact (List.append_nil _).symm
    · rw [if_neg hdue, if_neg fun h => hdue h.1]
      exact (List.append_nil _).symm

end Task

section Timer

/-- The host asked for the level. -/
def Asked (k : Hid n) (h : UInt16) : Prop := notifies k .battCccd h = true

instance (k : Hid n) (h : UInt16) : Decidable (Asked k h) := inferInstanceAs (Decidable (_ = _))

theorem asked_step (hk : Linked k) (he : Told k e) :
    Asked (step k e) h ↔ Subscribes h .battCccd e ∨ Asked k h ∧ ¬ Unsubscribes h .battCccd e :=
  notifies_step hk he (Or.inr (Or.inr rfl))

/-- Who asked is there. -/
structure Attended (k : Hid n) : Prop extends Linked k where
  live : ∀ h, Asked k h → h ∈ k.links

theorem attended_step (hk : Attended k) (he : Told k e) : Attended (step k e) := by
  refine ⟨linked_step hk.toLinked he, fun h hh => ?_⟩
  rw [mem_links_step]
  rcases (asked_step hk.toLinked he).mp hh with hs | ⟨hasked, hu⟩
  · cases e with
    | write conn a value offset ccc =>
      obtain ⟨rfl, -⟩ := hs
      exact Or.inr ⟨he, id⟩
    | _ => exact absurd hs id
  · exact Or.inr ⟨hk.live h hasked, fun hf => hu (Or.inr hf)⟩

theorem attended_hidDevInit : Attended (hidDevInit n) :=
  ⟨linked_hidDevInit, fun _ hh => absurd hh (by decide : ¬ decide ((0 : UInt16) &&& 1 ≠ 0) = true)⟩

/-- As long as a host asks for the level, the next measurement is on the way. -/
def Measured (k : Hid n) : Prop := (∃ h, Asked k h) → k.timer = true ∨ k.due = true

/-- No host stops the measurement for another one, unless it is due already. -/
def Spares (k : Hid n) : Event → Prop
  | .write conn a value _ ccc =>
    a = .battCccd → ccc = success → charCfg value = 0 → (∃ h, h ≠ conn ∧ Asked k h) → k.due = true
  | _ => True

theorem timer_of_task {k' : Hid n} {t : Task} (h : task k' = t) : k'.timer = t.timer ∧ k'.due = t.due :=
  ⟨congrArg Task.timer h, congrArg Task.due h⟩

/-- Only a host that stops the measurement disarms it. -/
theorem armed_step (ha : k.timer = true ∨ k.due = true) (hs : e.kind ≠ .switch false) :
    (step k e).timer = true ∨ (step k e).due = true := by
  obtain ⟨htimer, hdue⟩ := timer_of_task (task_step (k := k) e)
  rw [htimer, hdue]
  cases hkind : e.kind with
  | switch on =>
    cases on
    · exact absurd hkind hs
    · exact Or.inl rfl
  | read measured => exact ha
  | expire =>
    unfold Task.step
    dsimp only
    split_ifs with ht
    · exact Or.inr rfl
    · exact ha
  | turn measured =>
    unfold Task.step
    dsimp only
    split_ifs with hd
    · exact Or.inl rfl
    · exact ha
  | other => exact ha

theorem kind_switch_false (hs : e.kind = .switch false) :
    ∃ conn value offset, e = .write conn .battCccd value offset success ∧ charCfg value = 0 := by
  unfold Event.kind at hs
  split at hs
  · rename_i conn value offset ccc
    split_ifs at hs with hccc
    · exact ⟨conn, value, offset, by rw [hccc], by simpa using hs⟩
  all_goals cases hs

theorem measured_good (hk : Attended k) (hm : Measured k) (he : Told k e) (hs : Spares k e) :
    Measured (step k e) := by
  rintro ⟨h, hh⟩
  by_cases hkind : e.kind = .switch false
  · obtain ⟨conn, value, offset, rfl, hzero⟩ := kind_switch_false hkind
    have hconn : conn ≠ h ∧ Asked k h := by
      rcases (asked_step hk.toLinked he).mp hh with hsub | ⟨hasked, hu⟩
      · exact absurd hsub.2.2.2.2 (by rw [hzero]; decide)
      · refine ⟨fun h => hu (Or.inl ⟨h, rfl, Or.inr rfl, rfl, ?_⟩), hasked⟩
        rw [hzero]
        decide
    have hdue := hs rfl rfl hzero ⟨h, hconn.1.symm, hconn.2⟩
    right
    rw [(timer_of_task (task_step _)).2, hkind]
    exact hdue
  · rcases (asked_step hk.toLinked he).mp hh with hsub | ⟨hasked, -⟩
    · left
      cases e with
      | write conn a value offset ccc =>
        obtain ⟨rfl, rfl, -, rfl, hbit⟩ := hsub
        have hon : charCfg value ≠ 0 := by
          rintro hzero
          rw [hzero] at hbit
          exact absurd hbit (by decide)
        rw [(timer_of_task (task_step _)).1]
        exact decide_eq_true hon
      | _ => exact absurd hsub id
    · exact armed_step (hm ⟨h, hasked⟩) hkind

theorem measured_bad (hk : Attended k) (he : Told k e) (hs : ¬ Spares k e) : ¬ Measured (step k e) := by
  cases e with
  | write conn a value offset ccc =>
    unfold Spares at hs
    push Not at hs
    obtain ⟨rfl, rfl, hzero, ⟨h, hne, hasked⟩, hdue⟩ := hs
    have hkind : Event.kind (.write conn .battCccd value offset success) = .switch false := by
      change (if success = success then Kind.switch (charCfg value ≠ 0) else .other) = _
      rw [if_pos rfl, hzero]
      rfl
    have hstill : Asked (step k (.write conn .battCccd value offset success)) h := by
      refine (asked_step hk.toLinked he).mpr (Or.inr ⟨hasked, ?_⟩)
      rintro (hc | hf)
      · exact hne hc.1.symm
      · exact hf
    intro hm
    have harmed := hm ⟨h, hstill⟩
    obtain ⟨htimer, hdue'⟩ := timer_of_task (task_step (k := k) (.write conn .battCccd value offset success))
    rw [htimer, hdue', hkind] at harmed
    exact harmed.elim Bool.false_ne_true hdue
  | _ => exact absurd trivial hs

/-- The level is measured for those who asked for it, in every state of a run, exactly when no host stops
the measurement while another one still asks and none is due. -/
theorem measured_iff {es : List Event} (hes : Run.Along step Told (hidDevInit n) es) :
    Run.Always step Measured (hidDevInit n) es ↔ Run.Along step Spares (hidDevInit n) es := by
  refine Run.always_iff_along_of_along (I := fun k => Attended k ∧ Measured k) (fun _ h => h.2)
    (fun k e h he hs => ⟨attended_step h.1 he, measured_good h.1 h.2 he hs⟩)
    (fun k e h he hs => measured_bad h.1 he hs) ⟨attended_hidDevInit, fun h => ?_⟩ hes
  obtain ⟨h, hh⟩ := h
  exact absurd hh (by decide : ¬ decide ((0 : UInt16) &&& 1 ≠ 0) = true)

def twoHosts : List Event :=
  [.established 1 24 0 4, .established 2 24 0 4, .write 1 .battCccd [1, 0] 0 success,
   .write 2 .battCccd [1, 0] 0 success, .write 1 .battCccd [0, 0] 0 success]

/-- The second one is not told any more. -/
theorem measurement_stopped : ¬ Run.Always step Measured (hidDevInit 3) twoHosts := by
  intro h
  have hspares := (measured_iff (show Run.Along step Told (hidDevInit 3) twoHosts by decide)).mp h
  exact absurd (hspares.2.2.2.2.1 rfl rfl (by decide) ⟨2, by decide⟩) (by decide)

end Timer

section Heard

/-- The server, and the level each host heard last since its link came up. -/
structure Watch (n : ℕ) where
  dev : Hid n
  heard : UInt16 → Option UInt8

/-- What a host reads of the level. -/
def readBack (h : UInt16) : Event → Option UInt8
  | .read conn .battLevel 0 _ measured => if conn = h then some measured else none
  | _ => none

/-- What the last of the news tells a host. -/
def toldOf (h : UInt16) (news : List (UInt16 × UInt8)) : Option UInt8 :=
  (news.reverse.find? fun p => p.1 = h).map Prod.snd

def Watch.step (w : Watch n) (e : Event) : Watch n where
  dev := HidDev.step w.dev e
  heard := fun h =>
    if Changes h e then none
    else (readBack h e).or
      ((toldOf h ((HidDev.step w.dev e).told.drop w.dev.told.length)).or (w.heard h))

variable {w : Watch n}

/-- Who asked for the level and heard one since, heard the present one. -/
def Known (w : Watch n) : Prop := ∀ h, Asked w.dev h → w.heard h = none ∨ w.heard h = some w.dev.level

/-- What keeps the hosts informed: no read finds a new level while another host has heard one, every
notification of a new level goes through, and a host that asks again has not heard an old one. -/
def Informs (w : Watch n) (e : Event) : Prop :=
  (∀ conn maxLen measured, e = .read conn .battLevel 0 maxLen measured → measured ≠ w.dev.level →
    ∀ h, h ≠ conn → Asked w.dev h → w.heard h = none) ∧
  (∀ measured ok, e = .battTurn measured ok → w.dev.due = true → measured ≠ w.dev.level →
    ∀ h, Asked w.dev h → ok h = true ∨ w.heard h = none) ∧
  ∀ h, Subscribes h .battCccd e → w.heard h = none ∨ w.heard h = some w.dev.level

theorem toldOf_map {h : UInt16} {l : List UInt16} {v : UInt8} :
    toldOf h (l.map (·, v)) = if h ∈ l then some v else none := by
  unfold toldOf
  by_cases hmem : h ∈ l
  · rw [if_pos hmem]
    cases hfind : (l.map (·, v)).reverse.find? fun p => p.1 = h with
    | none =>
      have hnone := List.find?_eq_none.mp hfind (h, v) (by simp [hmem])
      simp at hnone
    | some p =>
      obtain ⟨g, -, rfl⟩ := List.mem_map.mp (List.mem_reverse.mp (List.mem_of_find?_eq_some hfind))
      rfl
  · rw [if_neg hmem]
    have hnone : (l.map (·, v)).reverse.find? (fun p => p.1 = h) = none := by
      refine List.find?_eq_none.mpr fun p hp => ?_
      obtain ⟨g, hg, rfl⟩ := List.mem_map.mp (List.mem_reverse.mp hp)
      simpa using fun he : g = h => hmem (he ▸ hg)
    rw [hnone]
    rfl

theorem heard_step (h : UInt16) : (w.step e).heard h =
    if Changes h e then none else (readBack h e).or ((toldOf h (news w.dev e)).or (w.heard h)) := by
  unfold Watch.step
  dsimp only
  rw [told_step, List.drop_left]

theorem level_step (e : Event) : (step k e).level = ((task k).step e.kind).level :=
  congrArg Task.level (task_step e)

/-- A read of the level, a turn of the task, the critical level, or nothing that the hosts hear. -/
theorem heard_cases (e : Event) : (∃ conn maxLen measured, e = .read conn .battLevel 0 maxLen measured) ∨
    (∃ measured ok, e = .battTurn measured ok) ∨ (∃ critical ok, e = .setCritical critical ok) ∨
    (step k e).level = k.level ∧ news k e = [] ∧ ∀ h, readBack h e = none := by
  cases e with
  | read conn a offset maxLen measured =>
    by_cases ha : a = .battLevel ∧ offset = 0
    · obtain ⟨rfl, rfl⟩ := ha
      exact Or.inl ⟨_, _, _, rfl⟩
    · refine Or.inr (Or.inr (Or.inr ⟨?_, rfl, fun h => ?_⟩))
      · rw [level_step]
        cases offset <;> cases a <;> first | rfl | exact absurd ⟨rfl, rfl⟩ ha
      · cases offset <;> cases a <;> first | rfl | exact absurd ⟨rfl, rfl⟩ ha
  | battTurn measured ok => exact Or.inr (Or.inl ⟨_, _, rfl⟩)
  | setCritical critical ok => exact Or.inr (Or.inr (Or.inl ⟨_, _, rfl⟩))
  | write conn a value offset ccc =>
    refine Or.inr (Or.inr (Or.inr ⟨?_, rfl, fun h => rfl⟩))
    rw [level_step]
    unfold Event.kind
    split
    · split_ifs <;> rfl
    all_goals first | rfl | (rename_i heq; cases heq)
  | expire =>
    refine Or.inr (Or.inr (Or.inr ⟨?_, rfl, fun h => rfl⟩))
    rw [level_step]
    change (if k.timer = true then { task k with timer := false, due := true } else task k).level = _
    split_ifs <;> rfl
  | established | terminated | paired | gapState | params | report | close =>
    exact Or.inr (Or.inr (Or.inr ⟨level_step _, rfl, fun h => rfl⟩))

theorem mem_battHosts (hk : Attended k) {ok : UInt16 → Bool} :
    h ∈ battHosts k ok ↔ Asked k h ∧ ok h = true := by
  rw [battHosts, List.mem_filter, Bool.and_eq_true]
  exact ⟨fun h => h.2, fun ha => ⟨hk.live h ha.1, ha⟩⟩

theorem heard_turn (hk : Attended w.dev) {measured : UInt8} (ok : UInt16 → Bool) (hdue : w.dev.due = true)
    (hne : measured ≠ w.dev.level) : ((w.step (.battTurn measured ok)).heard h =
      if Asked w.dev h ∧ ok h = true then some measured else w.heard h) ∧
      (w.step (.battTurn measured ok)).dev.level = measured := by
  constructor
  · have hchange : ¬ Changes h (.battTurn measured ok) := fun h => h.elim id id
    have hnews : news w.dev (.battTurn measured ok) = (battHosts w.dev ok).map (·, measured) :=
      if_pos ⟨hdue, hne⟩
    rw [heard_step, if_neg hchange, hnews, toldOf_map]
    by_cases hmem : Asked w.dev h ∧ ok h = true
    · rw [if_pos hmem, if_pos ((mem_battHosts hk).mpr hmem)]
      rfl
    · rw [if_neg hmem, if_neg fun h => hmem ((mem_battHosts hk).mp h)]
      rfl
  · change (HidDev.step w.dev (.battTurn measured ok)).level = measured
    rw [level_step]
    change (if w.dev.due = true then (⟨measured, true, false⟩ : Task) else task w.dev).level = measured
    rw [if_pos hdue]

theorem heard_turn_of_not {measured : UInt8} (ok : UInt16 → Bool)
    (hnew : ¬ (w.dev.due = true ∧ measured ≠ w.dev.level)) :
    (w.step (.battTurn measured ok)).heard h = w.heard h ∧
      (w.step (.battTurn measured ok)).dev.level = w.dev.level := by
  constructor
  · have hchange : ¬ Changes h (.battTurn measured ok) := fun h => h.elim id id
    have hnews : news w.dev (.battTurn measured ok) = [] := if_neg hnew
    rw [heard_step, if_neg hchange, hnews]
    rfl
  · change (HidDev.step w.dev (.battTurn measured ok)).level = _
    rw [level_step]
    change (if w.dev.due = true then (⟨measured, true, false⟩ : Task) else task w.dev).level = _
    by_cases hdue : w.dev.due = true
    · rw [if_pos hdue]
      by_contra hne
      exact hnew ⟨hdue, hne⟩
    · rw [if_neg hdue]
      rfl

theorem heard_critical {critical : UInt8} {ok : UInt16 → Bool} :
    (w.step (.setCritical critical ok)).dev.level = w.dev.level ∧
      (w.step (.setCritical critical ok)).heard h =
        if w.dev.level < critical ∧ h ∈ battHosts w.dev ok then some w.dev.level else w.heard h := by
  constructor
  · exact level_step _
  · have hchange : ¬ Changes h (.setCritical critical ok) := fun h => h.elim id id
    rw [heard_step, if_neg hchange]
    by_cases hlow : w.dev.level < critical
    · have hnews : news w.dev (.setCritical critical ok) = (battHosts w.dev ok).map (·, w.dev.level) :=
        if_pos hlow
      rw [hnews, toldOf_map]
      by_cases hmem : h ∈ battHosts w.dev ok
      · rw [if_pos hmem, if_pos ⟨hlow, hmem⟩]
        rfl
      · rw [if_neg hmem, if_neg fun h => hmem h.2]
        rfl
    · have hnews : news w.dev (.setCritical critical ok) = [] := if_neg hlow
      rw [hnews, if_neg fun h => hlow h.1]
      rfl

theorem heard_read {conn : UInt16} {maxLen : ℕ} {measured : UInt8} :
    ((w.step (.read conn .battLevel 0 maxLen measured)).heard h =
      if conn = h then some measured else w.heard h) ∧
      (w.step (.read conn .battLevel 0 maxLen measured)).dev.level = measured := by
  refine ⟨?_, rfl⟩
  have hchange : ¬ Changes h (.read conn .battLevel 0 maxLen measured) := fun h => h.elim id id
  rw [heard_step, if_neg hchange]
  change ((if conn = h then some measured else none).or _) = _
  split_ifs <;> rfl

theorem asked_of_step (hk : Attended w.dev) (he : Told w.dev e) (hs : ¬ Subscribes h .battCccd e)
    (hh : Asked (w.step e).dev h) : Asked w.dev h :=
  (((asked_step hk.toLinked he).mp hh).resolve_left hs).1

theorem known_good (hk : Attended w.dev) (hw : Known w) (he : Told w.dev e) (hi : Informs w e) :
    Known (w.step e) := by
  intro h hh
  obtain ⟨hread, hturn, hsub⟩ := hi
  by_cases hchange : Changes h e
  · exact Or.inl (by rw [heard_step, if_pos hchange])
  rcases heard_cases (k := w.dev) e with ⟨conn, maxLen, measured, rfl⟩ | ⟨measured, ok, rfl⟩ |
    ⟨critical, ok, rfl⟩ | ⟨hlevel, hnews, hback⟩
  · have hasked := asked_of_step hk he id hh
    rw [(heard_read (h := h)).1, (heard_read (h := h)).2]
    split_ifs with hconn
    · exact Or.inr rfl
    · by_cases hne : measured = w.dev.level
      · rw [hne]
        exact hw h hasked
      · exact Or.inl (hread conn maxLen measured rfl hne h (Ne.symm hconn) hasked)
  · have hasked := asked_of_step hk he id hh
    by_cases hnew : w.dev.due = true ∧ measured ≠ w.dev.level
    · obtain ⟨hheard, hlevel⟩ := heard_turn (h := h) hk ok hnew.1 hnew.2
      rw [hheard, hlevel]
      split_ifs with hmem
      · exact Or.inr rfl
      · rcases hturn measured ok rfl hnew.1 hnew.2 h hasked with hok | hnone
        · exact absurd ⟨hasked, hok⟩ hmem
        · exact Or.inl hnone
    · obtain ⟨hheard, hlevel⟩ := heard_turn_of_not (h := h) ok hnew
      rw [hheard, hlevel]
      exact hw h hasked
  · have hasked := asked_of_step hk he id hh
    rw [(heard_critical (h := h)).2, (heard_critical (h := h)).1]
    split_ifs with hmem
    · exact Or.inr rfl
    · exact hw h hasked
  · have hheard : (w.step e).heard h = w.heard h := by
      rw [heard_step, if_neg hchange, hback, hnews]
      rfl
    change (w.step e).heard h = none ∨ (w.step e).heard h = some (HidDev.step w.dev e).level
    rw [hheard, hlevel]
    rcases (asked_step hk.toLinked he).mp hh with hs | ⟨hasked, -⟩
    · exact hsub h hs
    · exact hw h hasked

theorem known_bad (hk : Attended w.dev) (hw : Known w) (he : Told w.dev e) (hi : ¬ Informs w e) :
    ¬ Known (w.step e) := by
  intro hknown
  refine hi ⟨?_, ?_, ?_⟩
  · rintro conn maxLen measured rfl hne h hh hasked
    have hstill : Asked (w.step (.read conn .battLevel 0 maxLen measured)).dev h :=
      (asked_step hk.toLinked he).mpr (Or.inr ⟨hasked, fun hu => hu.elim id id⟩)
    have hafter := hknown h hstill
    rw [(heard_read (h := h)).1, (heard_read (h := h)).2, if_neg hh.symm] at hafter
    refine (hw h hasked).resolve_right fun hold => ?_
    rw [hold] at hafter
    exact hne (Option.some.inj (hafter.resolve_left nofun)).symm
  · rintro measured ok rfl hdue hne h hasked
    have hstill : Asked (w.step (.battTurn measured ok)).dev h :=
      (asked_step hk.toLinked he).mpr (Or.inr ⟨hasked, fun hu => hu.elim id id⟩)
    have hafter := hknown h hstill
    obtain ⟨hheard, hlevel⟩ := heard_turn (h := h) hk ok hdue hne
    by_cases hok : ok h = true
    · exact Or.inl hok
    · rw [hheard, hlevel, if_neg fun h => hok h.2] at hafter
      refine Or.inr ((hw h hasked).resolve_right fun hold => ?_)
      rw [hold] at hafter
      exact hne (Option.some.inj (hafter.resolve_left nofun)).symm
  · intro h hs
    have hstill : Asked (w.step e).dev h := (asked_step hk.toLinked he).mpr (Or.inl hs)
    have hafter := hknown h hstill
    cases e with
    | write conn a value offset ccc =>
      have hchange : ¬ Changes h (.write conn a value offset ccc) := fun h => h.elim id id
      have hlevel : (w.step (.write conn a value offset ccc)).dev.level = w.dev.level := by
        obtain ⟨_, _, _, hread⟩ | ⟨_, _, hturn⟩ | ⟨_, _, hcritical⟩ | ⟨hlevel, -⟩ :=
          heard_cases (k := w.dev) (.write conn a value offset ccc)
        · cases hread
        · cases hturn
        · cases hcritical
        · exact hlevel
      have hheard : (w.step (.write conn a value offset ccc)).heard h = w.heard h := by
        rw [heard_step, if_neg hchange]
        rfl
      rwa [hheard, hlevel] at hafter
    | _ => exact absurd hs id

/-- In every run the hosts that asked for the level know it, once they heard one, exactly as long as the
steps keep them informed. -/
theorem level_known_iff {es : List Event}
    (hes : Run.Along Watch.step (fun w e => Told w.dev e) (⟨hidDevInit n, fun _ => none⟩ : Watch n) es) :
    Run.Always Watch.step Known (⟨hidDevInit n, fun _ => none⟩ : Watch n) es ↔
      Run.Along Watch.step Informs (⟨hidDevInit n, fun _ => none⟩ : Watch n) es := by
  refine Run.always_iff_along_of_along (I := fun w => Attended w.dev ∧ Known w) (fun _ h => h.2)
    (fun w e h he hi => ⟨attended_step h.1 he, known_good h.1 h.2 he hi⟩)
    (fun w e h he hi => known_bad h.1 h.2 he hi) ⟨attended_hidDevInit, fun h _ => Or.inl rfl⟩ hes

def readsAlone : List Event :=
  [.established 1 24 0 4, .established 2 24 0 4, .write 1 .battCccd [1, 0] 0 success,
   .write 2 .battCccd [1, 0] 0 success, .expire, .battTurn 90 (fun _ => true), .read 1 .battLevel 0 22 80]

theorem other_host_misled :
    ¬ Run.Always Watch.step Known (⟨hidDevInit 3, fun _ => none⟩ : Watch 3) readsAlone := by
  intro h
  have hinforms := (level_known_iff (by decide)).mp h
  have hnone := hinforms.2.2.2.2.2.2.1.1 1 22 80 rfl (by decide) 2 (by decide) (by decide)
  exact absurd hnone (by decide)

end Heard

end AtNode.HidDev
