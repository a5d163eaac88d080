import AtNode.Ch582.Dongle

/-!
# Forwarding and arming of the dongle

An armed dongle sends every keyboard notification on to the USB host, and nothing else goes there.
The end of a link sends nothing, so the host is left with the report that was forwarded last.

The dongle is to be armed only when every CCCD it collected has been written and the write answered
with success. The write branch of `dgl_process_gatt_msg` takes every write response and every ATT
error for the success of the write it waits for.
-/

namespace AtNode.Central

open Run

variable {o : Build} {a : GapAnswers} {d : Dongle}

section Forwarding

def Report.rest : Report := ⟨0, [0, 0, 0, 0, 0, 0]⟩

/-- The last report the host received is all-zero, or it received none. -/
def KeysReleased (usb : List Report) : Prop := ∀ r ∈ usb.getLast?, r = Report.rest

/-- The report a notification makes the dongle forward. -/
def notified (d : Dongle) (m : GattMsg) : List Report :=
  match m.body, d.state with
  | .handleValueNoti h r, .armed =>
    if d.client.link.matches h ∧ 8 ≤ r.length then [⟨r.getD 0 0, (r.drop 2).take 6⟩] else []
  | _, _ => []

def forwarded (d : Dongle) : Event → List Report
  | .gatt m _ _ => notified d m
  | _ => []

def forwardedBy (o : Build) (d : Dongle) : List Event → List Report
  | [] => []
  | e :: es => forwarded d e ++ forwardedBy o (step o d e) es

theorem usb_cccdWriteNext (o : Build) (a : GapAnswers) (d : Dongle) :
    (dglCccdWriteNext o a d).usb = d.usb := by
  rcases cccdWriteNext_cases o a d with ⟨-, h⟩ | ⟨-, -, h⟩ | ⟨-, -, h⟩
  · rw [h]
  · rw [h]
  · obtain ⟨i, p, he⟩ := arm_eq o a _
    rw [h, he]

theorem usb_forward (d : Dongle) {m : GattMsg} {h : UInt16} {r : List UInt8}
    (hb : m.body = .handleValueNoti h r) (hs : d.state = .armed) :
    (forward d h r).usb = d.usb ++ notified d m := by
  rw [forward, notified, hb, hs]
  dsimp only
  split
  · rfl
  · exact (List.append_nil _).symm

theorem notified_of_not {m : GattMsg}
    (hno : ∀ h r, m.body = .handleValueNoti h r → d.state = .armed → False) :
    notified d m = [] := by
  unfold notified
  split
  · rename_i h r hb hs
    exact (hno h r hb hs).elim
  · rfl

theorem usb_gatt (o : Build) (a : GapAnswers) (d : Dongle) (m : GattMsg) :
    (dglProcessGattMsg o a d m).usb = d.usb ++ notified d m := by
  unfold dglProcessGattMsg
  split
  · rename_i h r hb hs
    exact usb_forward d hb hs
  · rename_i hno
    rw [notified_of_not hno, List.append_nil]
    split
    · exact usb_cccdWriteNext o a d
    split
    · rfl
    split
    · rfl
    split
    · rfl
    · rfl

theorem usb_task (a : GapAnswers) (d : Dongle) : (dglProcessEvent a d).usb = d.usb := by
  rcases task_cases a d with ⟨-, -, -, h⟩ | ⟨-, -, h⟩ | ⟨-, h⟩
  · rw [h]
  · rw [h]
  · exact h.usb

theorem usb_linkEstablished (d : Dongle) (status : UInt8) (handle : UInt16) :
    (linkEstablished d status handle).usb = d.usb := by
  by_cases hs : status = success
  · rw [hs, linkEstablished_success]
  · obtain ⟨f, hold, -, h⟩ := linkEstablished_failed d hs handle
    rw [h]

theorem usb_linkTerminated (d : Dongle) : (linkTerminated d).usb = d.usb := by
  obtain ⟨f, hold, -, h⟩ := linkTerminated_eq d
  rw [h]

theorem usb_step (o : Build) (d : Dongle) (e : Event) :
    (step o d e).usb = d.usb ++ forwarded d e := by
  cases e with
  | gatt m last a =>
    obtain ⟨p, en, he⟩ := received_eq d m last
    rw [step, usb_gatt, he]
    rfl
  | linkEstablished t status handle =>
    refine .trans ?_ (List.append_nil _).symm
    rw [step]
    split
    · exact usb_linkEstablished _ status handle
    · rfl
  | linkTerminated handle reason =>
    refine .trans ?_ (List.append_nil _).symm
    rw [step]
    split
    · exact usb_linkTerminated _
    · rfl
  | task a => exact (usb_task a d).trans (List.append_nil _).symm
  | pairState state status =>
    refine .trans ?_ (List.append_nil _).symm
    rw [step]
    unfold dglPairStateCb
    split
    · rfl
    · rfl
  | btBatt a =>
    refine .trans ?_ (List.append_nil _).symm
    rw [step]
    unfold bleDongleBattRead
    split
    · rfl
    split
    · rfl
    · rfl
  | expire t =>
    cases t with
    | svcDisc | auto | linkTimeout => exact (List.append_nil _).symm
  | deviceInitDone | deviceInfo | directDeviceInfo | discoveryDone | btScan | btConnWatch
  | btConnIndex | btDisc | btAuto | btPair =>
    exact (leavesLink_step rfl).usb.trans (List.append_nil _).symm

theorem usb_final (o : Build) (d : Dongle) (es : List Event) :
    (final (step o) d es).usb = d.usb ++ forwardedBy o d es := by
  induction es generalizing d with
  | nil => exact (List.append_nil _).symm
  | cons e es ih =>
    rw [final_cons, ih, usb_step, List.append_assoc]
    rfl

/-- Behind the end of a link the host is left with no key if and only if the report that was
forwarded last was all-zero. -/
theorem keys_released_iff (o : Build) (es : List Event) (handle : UInt16) (reason : UInt8) :
    KeysReleased (final (step o) (boot o) (es ++ [.linkTerminated handle reason])).usb ↔
      KeysReleased (forwardedBy o (boot o) es) := by
  have hsame : (final (step o) (boot o) (es ++ [.linkTerminated handle reason])).usb =
      forwardedBy o (boot o) es := by
    rw [final_append, final_cons, final_nil, usb_step, usb_final]
    exact List.append_nil _
  rw [hsame]

def discoverRun : List Event :=
  connectRun ++ [.expire .svcDisc, .task {},
    answer success (.findByTypeValueRsp 1 (bytes [0x01, 0x00, 0x20, 0x00])) false,
    answer bleProcedureComplete (.findByTypeValueRsp 0 (bytes [])) true,
    answer success (.readByTypeRsp 1 4 (bytes [0x10, 0x00, 0x08, 0x00])) false,
    answer bleProcedureComplete (.readByTypeRsp 0 4 (bytes [])) true,
    answer success (.errorRsp 0x0A 0x01) true,
    answer success (.readByTypeRsp 1 4 (bytes [0x11, 0x00, 0x00, 0x00])) false,
    answer bleProcedureComplete (.readByTypeRsp 0 4 (bytes [])) true]

def lostRun : List Event :=
  discoverRun ++ [answer success .writeRsp true,
    answer success (.handleValueNoti 0x10 [0, 0, 4, 0, 0, 0, 0, 0]) false,
    .linkTerminated 0x20 0x08]

/-- The key stays down on the host. -/
theorem key_left_down :
    ¬ KeysReleased (final (step dglRelease) (boot dglRelease) lostRun).usb := by
  intro h
  have hlast : (⟨0, [4, 0, 0, 0, 0, 0]⟩ : Report) = Report.rest := h _ (by decide +kernel)
  exact absurd hlast (by decide)

end Forwarding

section Writing

variable {l : Link} {en en' : List UInt16} {m : GattMsg}

/-- Where the writing of the CCCDs stands: all of them before `cccdWr` are enabled. -/
structure Writing (l : Link) (en : List UInt16) : Prop where
  written : ∀ h ∈ l.cccdList.take l.cccdWr, h ∈ en
  bound : l.cccdWr = 0 ∨ l.discState = .cccd ∧ l.cccdWr < l.cccdList.length
  boot : l.discState = .cccd → l.bootHdl ≠ 0 → l.cccdList.length ≤ 1

/-- All CCCDs are enabled and the discovery is behind them. -/
structure Written (l : Link) (en : List UInt16) : Prop where
  enabled : ∀ h ∈ l.cccdList, h ∈ en
  behind : l.discState = .idle ∨ l.discState = .battSvc ∨ l.discState = .battChar

theorem Writing.mono (hw : Writing l en) (hsub : ∀ h ∈ en, h ∈ en') : Writing l en' :=
  ⟨fun h hh => hsub h (hw.written h hh), hw.bound, hw.boot⟩

theorem Written.mono (hw : Written l en) (hsub : ∀ h ∈ en, h ∈ en') : Written l en' :=
  ⟨fun h hh => hsub h (hw.enabled h hh), hw.behind⟩

theorem writing_of_zero (hz : l.cccdWr = 0)
    (hboot : l.discState = .cccd → l.bootHdl ≠ 0 → l.cccdList.length ≤ 1) : Writing l en := by
  refine ⟨?_, Or.inl hz, hboot⟩
  rw [hz, List.take_zero]
  intro h hh
  cases hh

theorem Writing.wr_eq_zero (hw : Writing l en) (hd : l.discState ≠ .cccd ∨ l.cccdList = []) :
    l.cccdWr = 0 := by
  rcases hw.bound with hz | ⟨hc, hlt⟩
  · exact hz
  · rcases hd with hd | hd
    · exact absurd hc hd
    · rw [hd] at hlt
      exact absurd hlt (Nat.not_lt_zero _)

theorem writing_collectCccd (hd : l.discState = .cccd) (hw : Writing l en) (h : UInt16) :
    (collectCccd l h).discState = .cccd ∧ Writing (collectCccd l h) en := by
  unfold collectCccd
  split
  · split
    · rename_i hboot
      split
      · refine ⟨hd, writing_of_zero ?_ fun _ _ => Nat.le_refl 1⟩
        have hlen := hw.boot hd hboot
        rcases hw.bound with hz | ⟨-, hlt⟩
        · exact hz
        · exact Nat.lt_one_iff.mp (hlt.trans_le hlen)
      · exact ⟨hd, hw⟩
    · rename_i hboot
      have hle : l.cccdWr ≤ l.cccdList.length := by
        rcases hw.bound with hz | ⟨-, hlt⟩
        · exact hz ▸ Nat.zero_le _
        · exact hlt.le
      refine ⟨hd, ⟨?_, ?_, fun _ hne => absurd hne hboot⟩⟩
      · intro h' hh'
        rw [List.take_append_of_le_length hle] at hh'
        exact hw.written h' hh'
      · exact hw.bound.imp id fun hb => ⟨hd, by
          rw [List.length_append]
          exact hb.2.trans_le (Nat.le_add_right _ _)⟩
  · exact ⟨hd, hw⟩

theorem writing_foldl_collectCccd (hs : List UInt16) (hd : l.discState = .cccd)
    (hw : Writing l en) : Writing (hs.foldl collectCccd l) en := by
  induction hs generalizing l with
  | nil => exact hw
  | cons h hs ih =>
    obtain ⟨hd', hw'⟩ := writing_collectCccd hd hw h
    exact ih hd' hw'

theorem writing_collect (hw : Writing l en) (m : GattMsg) : Writing (collect l m) en := by
  by_cases hd : l.discState = .cccd
  · rcases collect_cccd hd m with ⟨hs, h⟩ | h
    · rw [h]
      exact writing_foldl_collectCccd hs hd hw
    · rw [h]
      exact hw
  · obtain ⟨s, t, b, p, r, k, h⟩ := collect_handles hd m
    rw [h]
    exact ⟨hw.written, hw.bound, fun hc => absurd hc hd⟩

theorem written_collect (hw : Written l en) (m : GattMsg) : Written (collect l m) en := by
  have hd : l.discState ≠ .cccd := by
    intro hc
    rcases hw.behind with h | h | h
    · rw [hc] at h; cases h
    · rw [hc] at h; cases h
    · rw [hc] at h; cases h
  obtain ⟨s, t, b, p, r, k, h⟩ := collect_handles hd m
  rw [h]
  exact ⟨hw.enabled, hw.behind⟩

variable {c : Client} {a : Answers}

theorem writing_findChar (uuid : UInt16) {next : DiscState} (hz : c.link.cccdWr = 0)
    (hn : next ≠ .cccd ∨ c.link.cccdList = []) :
    Writing (dglFindChar a c uuid next).link en := by
  refine writing_of_zero hz ?_
  intro hc _
  rcases hn with hn | hn
  · exact absurd hc hn
  · change c.link.cccdList.length ≤ 1
    rw [hn]
    exact Nat.zero_le 1

theorem writing_discoveryFailed (connected : Bool) (hz : c.link.cccdWr = 0) :
    Writing (dglDiscoveryFailed c connected).link en := by
  obtain ⟨n, evt, h⟩ := discoveryFailed_eq c connected
  rw [h]
  exact writing_of_zero hz fun hc => nomatch hc

theorem writing_advance (connected : Bool) (hw : Writing c.link en) :
    Writing (advance a connected c).link en := by
  unfold advance
  split
  · rename_i hd
    have hz : c.link.cccdWr = 0 := hw.wr_eq_zero (Or.inl (by rw [hd]; decide))
    split
    · exact writing_findChar _ hz (Or.inl (by decide))
    · exact writing_discoveryFailed connected hz
  · rename_i hd
    have hz : c.link.cccdWr = 0 := hw.wr_eq_zero (Or.inl (by rw [hd]; decide))
    split
    · exact writing_findChar _ hz (Or.inl (by decide))
    · exact writing_findChar _ hz (Or.inl (by decide))
  · rename_i hd
    have hz : c.link.cccdWr = 0 := hw.wr_eq_zero (Or.inl (by rw [hd]; decide))
    split
    · exact writing_findChar _ hz (Or.inr rfl)
    · exact writing_discoveryFailed connected hz
  · rename_i hd
    have hz : c.link.cccdWr = 0 := hw.wr_eq_zero (Or.inl (by rw [hd]; decide))
    exact writing_findChar _ hz (Or.inr rfl)
  · rename_i hd
    split
    · split
      · rw [(writeHandle_link _ _ _ _ _).1]
        exact writing_of_zero rfl hw.boot
      · rw [(writeHandle_link _ _ _ _ _).1]
        exact writing_of_zero rfl hw.boot
    · rename_i hne
      exact writing_discoveryFailed connected (hw.wr_eq_zero (Or.inr (not_not.mp hne)))
  · rename_i hd
    have hz : c.link.cccdWr = 0 := hw.wr_eq_zero (Or.inl (by rw [hd]; decide))
    split
    · exact writing_findChar _ hz (Or.inl (by decide))
    · exact writing_of_zero hz fun hc => nomatch hc
  · rename_i hd
    have hz : c.link.cccdWr = 0 := hw.wr_eq_zero (Or.inl (by rw [hd]; decide))
    exact writing_of_zero hz fun hc => nomatch hc
  · exact hw

theorem written_advance (connected : Bool) (hw : Written c.link en) :
    Written (advance a connected c).link en := by
  rcases hw.behind with hd | hd | hd
  · unfold advance
    rw [hd]
    exact hw
  · unfold advance
    rw [hd]
    dsimp only
    split
    · exact ⟨hw.enabled, Or.inr (Or.inr rfl)⟩
    · exact ⟨hw.enabled, Or.inl rfl⟩
  · unfold advance
    rw [hd]
    exact ⟨hw.enabled, Or.inl rfl⟩

end Writing

section Armed

/-- Every CCCD collected is enabled once the dongle is armed. -/
def ArmedEnabled (d : Dongle) : Prop :=
  d.state = .armed → ∀ h ∈ d.client.link.cccdList, h ∈ d.client.enabled

/-- The message taken for the answer to a CCCD write is the write response to the write of the
CCCD that is due. -/
def AnswersDue (d : Dongle) : Event → Prop
  | .gatt m last _ =>
    answersWrite d m = true → d.client.link.protoPending = false →
      m.isWriteRsp = true ∧ last = true ∧ d.client.procedure = some (.writeCharValue
        (d.client.link.cccdList.getD d.client.link.cccdWr 0) gattClientCfgNotify 2)
  | _ => True

instance (d : Dongle) : ∀ e, Decidable (AnswersDue d e)
  | .gatt m last _ => inferInstanceAs (Decidable (answersWrite d m = true →
      d.client.link.protoPending = false →
      m.isWriteRsp = true ∧ last = true ∧ d.client.procedure = some (.writeCharValue
        (d.client.link.cccdList.getD d.client.link.cccdWr 0) gattClientCfgNotify 2)))
  | .deviceInitDone | .deviceInfo _ | .directDeviceInfo _ _ _ | .discoveryDone
  | .linkEstablished _ _ _ | .linkTerminated _ _ | .pairState _ _ | .expire _ | .task _
  | .btScan _ _ | .btConnWatch _ _ _ _ | .btConnIndex _ | .btDisc _ | .btAuto _ | .btPair _
  | .btBatt _ => isTrue trivial

structure Arming (d : Dongle) : Prop where
  armed : d.state = .armed → Written d.client.link d.client.enabled
  bringUp : d.state ≠ .armed → Writing d.client.link d.client.enabled

theorem arming_leavesLink {d' : Dongle} (hi : Arming d) (h : LeavesLink d d') : Arming d' := by
  refine ⟨fun hs => ?_, fun hs => ?_⟩
  · rw [h.client]
    rcases h.state with he | ⟨-, hup⟩
    · exact hi.armed (he ▸ hs)
    · rw [hs] at hup
      cases hup
  · rw [h.client]
    rcases h.state with he | ⟨hup, -⟩
    · exact hi.bringUp (he ▸ hs)
    · refine hi.bringUp fun hs' => ?_
      rw [hs'] at hup
      cases hup

theorem arming_of_fresh (hs : d.state ≠ .armed) (hz : d.client.link.cccdWr = 0)
    (hd : d.client.link.discState ≠ .cccd) : Arming d :=
  ⟨fun h => absurd h hs, fun _ => writing_of_zero hz fun hc => absurd hc hd⟩

theorem arming_linkEstablished (d : Dongle) (status : UInt8) (handle : UInt16) :
    Arming (linkEstablished d status handle) := by
  by_cases hs : status = success
  · rw [hs, linkEstablished_success]
    exact arming_of_fresh nofun rfl nofun
  · obtain ⟨f, hold, -, h⟩ := linkEstablished_failed d hs handle
    rw [h]
    exact arming_of_fresh nofun rfl nofun

theorem arming_linkTerminated (d : Dongle) : Arming (linkTerminated d) := by
  obtain ⟨f, hold, -, h⟩ := linkTerminated_eq d
  rw [h]
  exact arming_of_fresh nofun rfl nofun

theorem received_mono (d : Dongle) (m : GattMsg) (last : Bool) :
    ∀ h ∈ d.client.enabled, h ∈ (received d m last).client.enabled := by
  intro h hh
  unfold received answered
  split
  · split
    · split
      · exact List.mem_cons_of_mem _ hh
      · exact hh
    · exact hh
  · exact hh

theorem arming_received (hi : Arming d) (m : GattMsg) (last : Bool) :
    Arming (received d m last) := by
  have hmono := received_mono d m last
  obtain ⟨p, en, he⟩ := received_eq d m last
  rw [he] at hmono ⊢
  exact ⟨fun hs => (hi.armed hs).mono hmono, fun hs => (hi.bringUp hs).mono hmono⟩

theorem received_enables {m : GattMsg} {last : Bool} {h : UInt16}
    (hrsp : m.isWriteRsp = true) (hlast : last = true)
    (hp : d.client.procedure = some (.writeCharValue h gattClientCfgNotify 2)) :
    h ∈ (received d m last).client.enabled := by
  unfold received answered
  rw [if_pos hlast, hp]
  dsimp only
  rw [if_pos ⟨hrsp, rfl⟩]
  exact List.mem_cons_self

theorem take_succ_mem {xs : List UInt16} {n : ℕ} {en : List UInt16} (hn : n < xs.length)
    (hw : ∀ h ∈ xs.take n, h ∈ en) (hx : xs.getD n 0 ∈ en) : ∀ h ∈ xs.take (n + 1), h ∈ en := by
  intro h hh
  rw [List.take_add_one, List.getElem?_eq_getElem hn, Option.toList_some, List.mem_append,
    List.mem_singleton] at hh
  rcases hh with hh | rfl
  · exact hw h hh
  · rwa [List.getD_eq_getElem?_getD, List.getElem?_eq_getElem hn, Option.getD_some] at hx

/-- The step of the writing: the due CCCD is enabled, and the next one is due or none is left. -/
theorem arming_cccdWriteNext (hs : d.state ≠ .armed) (hd : d.client.link.discState = .cccd)
    (hne : d.client.link.cccdList ≠ []) (hw : Writing d.client.link d.client.enabled)
    (hdue : d.client.link.protoPending = false →
      d.client.link.cccdList.getD d.client.link.cccdWr 0 ∈ d.client.enabled) :
    Arming (dglCccdWriteNext o a d) := by
  have hlt : d.client.link.cccdWr < d.client.link.cccdList.length := by
    rcases hw.bound with hz | ⟨-, hlt⟩
    · exact hz ▸ List.length_pos_iff.mpr hne
    · exact hlt
  rcases cccdWriteNext_cases o a d with ⟨-, h⟩ | ⟨hp, hnext, h⟩ | ⟨hp, hlen, h⟩
  · rw [h]
    refine ⟨fun hs' => absurd hs' hs, fun _ => ?_⟩
    obtain ⟨hl, hen⟩ := writeHandle_link a.toAnswers
      { d.client with link := { d.client.link with protoPending := false } }
      (d.client.link.cccdList.headD 0) gattClientCfgNotify 2
    dsimp only
    rw [hl, hen]
    exact ⟨hw.written, hw.bound, hw.boot⟩
  · rw [h]
    refine ⟨fun hs' => absurd hs' hs, fun _ => ?_⟩
    obtain ⟨hl, hen⟩ := writeHandle_link a.toAnswers
      { d.client with link := { d.client.link with cccdWr := d.client.link.cccdWr + 1 } }
      (d.client.link.cccdList.getD (d.client.link.cccdWr + 1) 0) gattClientCfgNotify 2
    dsimp only
    rw [hl, hen]
    exact ⟨take_succ_mem hlt hw.written (hdue hp), Or.inr ⟨hd, hnext⟩, hw.boot⟩
  · obtain ⟨i, p, he⟩ := arm_eq o a { d with
      client := { d.client with
        link := { d.client.link with cccdWr := d.client.link.cccdWr + 1 } } }
    rw [h, he]
    have hall := take_succ_mem hlt hw.written (hdue hp)
    rw [List.take_of_length_le hlen] at hall
    exact ⟨fun _ => ⟨hall, Or.inr (Or.inl rfl)⟩, fun hs' => absurd rfl hs'⟩

theorem arming_discoveryEvent {m : GattMsg} (hi : Arming d) (hno : answersWrite d m = false) :
    Arming { d with
      client := dglDiscoveryEvent a.toAnswers (d.state = .connected) m d.client } := by
  unfold dglDiscoveryEvent
  split
  · rename_i hauth
    have herr : m.isErrorRsp = true := by
      unfold GattMsg.isAuthenError at hauth
      unfold GattMsg.isErrorRsp
      split at hauth
      · rfl
      · cases hauth
    refine ⟨fun hs => ⟨(hi.armed hs).enabled, Or.inl rfl⟩, fun hs => ?_⟩
    refine writing_of_zero ((hi.bringUp hs).wr_eq_zero ?_) fun hc => nomatch hc
    unfold answersWrite at hno
    by_cases hd : d.client.link.discState = .cccd
    · right
      by_contra hne
      simp only [herr, hd, hne, Bool.or_true, ne_eq, not_false_eq_true, decide_true,
        Bool.and_self, Bool.true_eq_false] at hno
    · exact Or.inl hd
  · split
    · refine ⟨fun hs => ?_, fun hs => ?_⟩
      · dsimp only
        rw [(advance_frame _ _).1]
        exact written_advance _ (written_collect (hi.armed hs) m)
      · dsimp only
        rw [(advance_frame _ _).1]
        exact writing_advance _ (writing_collect (hi.bringUp hs) m)
    · exact ⟨fun hs => written_collect (hi.armed hs) m,
        fun hs => writing_collect (hi.bringUp hs) m⟩

theorem arming_gatt {m : GattMsg} (hi : Arming d)
    (hdue : answersWrite d m = true → d.client.link.protoPending = false →
      d.client.link.cccdList.getD d.client.link.cccdWr 0 ∈ d.client.enabled) :
    Arming (dglProcessGattMsg o a d m) := by
  rcases gatt_cases o a d m with ⟨h, r, -, -, he⟩ | ⟨hw, he⟩ | ⟨-, b, i, p, he⟩ |
    ⟨hno, -, he⟩ | ⟨-, he⟩
  · rw [he]
    unfold forward
    split
    · exact ⟨hi.armed, hi.bringUp⟩
    · exact hi
  · rw [he]
    obtain ⟨hd, hne⟩ := answersWrite_cccd hw
    have hs : d.state ≠ .armed := by
      intro hs
      rcases (hi.armed hs).behind with h | h | h
      · rw [hd] at h; cases h
      · rw [hd] at h; cases h
      · rw [hd] at h; cases h
    exact arming_cccdWriteNext hs hd hne (hi.bringUp hs) (hdue hw)
  · rw [he]
    exact ⟨fun hs => ⟨(hi.armed hs).enabled, (hi.armed hs).behind⟩,
      fun hs => ⟨(hi.bringUp hs).written, (hi.bringUp hs).bound, (hi.bringUp hs).boot⟩⟩
  · rw [he]
    exact arming_discoveryEvent hi hno
  · rw [he]
    exact hi

theorem arming_task (hi : Arming d) : Arming (dglProcessEvent a d) := by
  rcases task_cases a d with ⟨-, hs, hd, h⟩ | ⟨-, -, h⟩ | ⟨-, h⟩
  · rw [h]
    have hne : d.state ≠ .armed := by rw [hs]; decide
    have hz := (hi.bringUp hne).wr_eq_zero (Or.inl (by rw [hd]; decide))
    rcases startSvcDiscovery_cases a.toAnswers
      { d.client with svcDiscEvt := d.client.svcDiscEvt.clear } true with he | ⟨n, evt, he⟩
    · rw [he]
      exact arming_of_fresh hne hz nofun
    · rw [he]
      exact arming_of_fresh hne hz nofun
  · rw [h]
    exact ⟨hi.armed, hi.bringUp⟩
  · exact arming_leavesLink hi h

theorem arming_step (o : Build) (d : Dongle) (e : Event) (hi : Arming d) (hdue : AnswersDue d e) :
    Arming (step o d e) := by
  cases e with
  | gatt m last a =>
    have hlink : (received d m last).client.link = d.client.link := by
      obtain ⟨p, en, he⟩ := received_eq d m last
      rw [he]
    have hstate : answersWrite (received d m last) m = answersWrite d m := by
      rw [answersWrite, answersWrite, hlink]
    refine arming_gatt (arming_received hi m last) ?_
    rw [hstate, hlink]
    intro hw hp
    obtain ⟨hrsp, hlast, hproc⟩ := hdue hw hp
    exact received_enables hrsp hlast hproc
  | linkEstablished t status handle =>
    rw [step]
    split
    · exact arming_linkEstablished _ status handle
    · exact hi
  | linkTerminated handle reason =>
    rw [step]
    split
    · exact arming_linkTerminated _
    · exact hi
  | task a => exact arming_task hi
  | pairState state status =>
    rw [step]
    unfold dglPairStateCb
    split
    · exact ⟨hi.armed, hi.bringUp⟩
    · exact hi
  | btBatt a =>
    rw [step]
    unfold bleDongleBattRead
    split
    · exact hi
    split
    · exact ⟨fun hs => ⟨(hi.armed hs).enabled, (hi.armed hs).behind⟩,
        fun hs => ⟨(hi.bringUp hs).written, (hi.bringUp hs).bound, (hi.bringUp hs).boot⟩⟩
    · exact hi
  | expire t =>
    cases t with
    | svcDisc | auto | linkTimeout => exact ⟨hi.armed, hi.bringUp⟩
  | deviceInitDone | deviceInfo | directDeviceInfo | discoveryDone | btScan | btConnWatch
  | btConnIndex | btDisc | btAuto | btPair => exact arming_leavesLink hi (leavesLink_step rfl)

/-- Where every message taken for the answer to a CCCD write is the write response to the CCCD that
is due, an armed dongle has enabled every CCCD it collected. -/
theorem armed_enabled_of_answersDue (o : Build) (es : List Event)
    (h : Along (step o) AnswersDue (boot o) es) : Always (step o) ArmedEnabled (boot o) es := by
  have hboot : Arming (boot o) := arming_of_fresh nofun rfl nofun
  exact (always_of_along (arming_step o) hboot h).mono fun d hi hs => (hi.armed hs).enabled

/-- A keyboard that answers the write of its CCCD arms the dongle. -/
theorem answered_write_arms :
    (final (step dglRelease) (boot dglRelease)
      (discoverRun ++ [answer success .writeRsp true])).state = .armed ∧
    Always (step dglRelease) ArmedEnabled (boot dglRelease)
      (discoverRun ++ [answer success .writeRsp true]) :=
  ⟨by decide +kernel, armed_enabled_of_answersDue dglRelease _ (by decide +kernel)⟩

def refusedRun : List Event :=
  discoverRun ++ [answer success (.errorRsp attErrInsufficientAuthen 0x11) true]

/-- The refusal arms the dongle as well, with the CCCD not enabled. -/
theorem refused_write_arms :
    ¬ ArmedEnabled (final (step dglRelease) (boot dglRelease) refusedRun) := by
  intro h
  have hmem := h (by decide +kernel) 0x11 (by decide +kernel)
  have hnone : (final (step dglRelease) (boot dglRelease) refusedRun).client.enabled = [] := by
    decide +kernel
  rw [hnone] at hmem
  cases hmem

end Armed

end AtNode.Central
