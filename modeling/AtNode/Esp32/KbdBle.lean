import AtNode.Lib.BootKeyboard
import AtNode.Lib.Run
import AtNode.Esp32.Bond

/-!
# The BLE keyboard of the ESP32 firmware

The host task advertises, takes a connection and serves it until it ends. Outside the pairing window
it keeps only the bonded host, and it lets a host bond if the window is open when it connects. While
it serves, it takes the reports of the keyboard engine from a channel of eight and notifies the host;
when the connection is over it empties the channel. The engine sends only while there is a
connection, and waits inside the send while the channel is full.

The end of the window is kept as 32 bits of seconds. Histories: `window` is the end of the sixty
seconds since it was last opened, if it was not closed; a report carries the number of the connection
on which its send was started; and what was notified, served and stored is listed.
-/

namespace AtNode.KbdBle

open Hid Config Bond

abbrev reportsCap : ℕ := 8

abbrev pairWindowSecs : ℕ := 60

abbrev u32 : ℕ := 2 ^ 32

/-- A report and the connection on which its send was started. -/
structure Sent where
  report : Report
  conn : ℕ
  deriving DecidableEq

inductive Phase where
  /-- In `accept`, or about to advertise. -/
  | advertising
  /-- In the loop of `serve_connection`. -/
  | serving (bondable : Bool)
  /-- In `on_new_bond`, until the registry has answered. -/
  | storing (bond : BondInformation)
  | pause
  deriving DecidableEq

/-- A connection that was served, as it was when it was accepted. -/
structure Served where
  peer : BdAddr
  bonded : Option BdAddr
  pairable : Bool
  deriving DecidableEq

/-- A bond that was stored, and whether the window was open then. -/
structure Stored where
  addr : BdAddr
  pairable : Bool
  deriving DecidableEq

structure State where
  now : ℕ
  pairUntil : ℕ
  window : Option ℕ
  cfg : Cfg
  bondedAddr : Option BdAddr
  bondClear : Bool
  phase : Phase
  connected : Bool
  reports : List Sent
  /-- What the engine is about to send, if it waits in the send. -/
  blocked : Option Sent
  conns : ℕ
  notified : List (Sent × ℕ)
  served : List Served
  stored : List Stored

section Window

def pairOpen (s : State) : State :=
  { s with
    pairUntil := (s.now % u32 + pairWindowSecs) % u32
    window := some (s.now + pairWindowSecs) }

def pairClose (s : State) : State := { s with pairUntil := 0, window := none }

def pairWindowOpen (s : State) : Bool :=
  decide (s.pairUntil ≠ 0) && decide (s.now % u32 < s.pairUntil)

/-- The sixty seconds since the window was opened are not over, and it was not closed. -/
def pairable (s : State) : Bool := s.window.any fun t => decide (s.now < t)

end Window

section Bonds

def loadBond (cfg : Cfg) : Option BdAddr :=
  (bondDecode (getStr cfg .bleBond)).map fun b => b.identity.bdAddr

/-- `cfg::set`; a call that fails changes nothing. -/
def cfgSet (s : State) (key val : Text) (flash : Bool) : State :=
  match Config.set s.cfg key val flash with
  | .ok (cfg, _) => { s with cfg := cfg }
  | .error _ => s

/-- `on_new_bond` goes on behind `cfg::set`. -/
def onNewBond (s : State) (b : BondInformation) (flash : Bool) : State :=
  match Config.set s.cfg "ble.bond".toList (bondEncode b) flash with
  | .ok (cfg, _) =>
    pairClose { s with
      cfg := cfg
      bondedAddr := some b.identity.bdAddr
      stored := s.stored ++ [⟨b.identity.bdAddr, pairable s⟩] }
  | .error _ => s

/-- `clear_bond` up to its wait for the host task. -/
def clearBond (s : State) (flash : Bool) : State :=
  { pairClose (cfgSet s "ble.bond".toList [] flash) with bondClear := true }

def handleBondClear (s : State) : State := { s with bondedAddr := none, bondClear := false }

end Bonds

section Reports

def sendReport (s : State) (r : Report) : State :=
  if s.connected then
    if s.reports.length < reportsCap then { s with reports := s.reports ++ [⟨r, s.conns⟩] }
    else { s with blocked := some ⟨r, s.conns⟩ }
  else s

def pollSend (s : State) : State :=
  match s.blocked with
  | some q =>
    if s.reports.length < reportsCap then
      { s with reports := s.reports ++ [q], blocked := none }
    else s
  | none => s

def emit (s : State) (r : Report) : State :=
  match s.blocked with
  | some _ => s
  | none => sendReport s r

def notify (s : State) : State :=
  match s.reports with
  | q :: qs => { s with reports := qs, notified := s.notified ++ [(q, s.conns)] }
  | [] => s

end Reports

section Connections

def serve (s : State) (peer : BdAddr) : State :=
  { s with
    phase := .serving (pairWindowOpen s)
    connected := true
    conns := s.conns + 1
    served := s.served ++ [⟨peer, s.bondedAddr, pairable s⟩] }

def accept (s : State) (peer : BdAddr) : State :=
  if !pairWindowOpen s && decide (s.bondedAddr ≠ some peer) then { s with phase := .pause }
  else serve s peer

def hangUp (s : State) : State := { s with phase := .pause, connected := false, reports := [] }

/-- The task takes the signal of `clear_bond` where it waits for it. -/
def takeBondClear (s : State) : State :=
  if !s.bondClear then s
  else match s.phase with
    | .advertising => handleBondClear s
    | .serving _ => hangUp (handleBondClear s)
    | .storing _ | .pause => s

def boot (cfg : Cfg) : State where
  now := 0
  pairUntil := 0
  window := none
  cfg := cfg
  bondedAddr := loadBond cfg
  bondClear := false
  phase := .advertising
  connected := false
  reports := []
  blocked := none
  conns := 0
  notified := []
  served := []
  stored := []

def reboot (s : State) : State :=
  { boot s.cfg with
    conns := s.conns
    notified := s.notified
    served := s.served
    stored := s.stored }

end Connections

inductive Event where
  | tick
  | pairOpen
  | pairClose
  | clearBond (flash : Bool)
  | set (key val : Text) (flash : Bool)
  | emit (r : Report)
  | pollSend
  | accept (peer : BdAddr)
  | acceptError
  | takeBondClear
  | notify
  /-- The pairing is complete; a bond comes of it only where the connection was made bondable. -/
  | pairingComplete (bond : Option BondInformation)
  /-- The registry has answered `on_new_bond`. -/
  | bondSet (flash : Bool)
  | disconnected
  | resume
  | reboot

def step (s : State) : Event → State
  | .tick => { s with now := s.now + 1 }
  | .pairOpen => pairOpen s
  | .pairClose => pairClose s
  | .clearBond flash => clearBond s flash
  | .set key val flash => cfgSet s key val flash
  | .emit r => emit s r
  | .pollSend => pollSend s
  | .accept peer =>
    match s.phase with
    | .advertising => accept s peer
    | _ => s
  | .acceptError =>
    match s.phase with
    | .advertising => { s with phase := .pause }
    | _ => s
  | .takeBondClear => takeBondClear s
  | .notify =>
    match s.phase with
    | .serving _ => notify s
    | _ => s
  | .pairingComplete bond =>
    match s.phase, bond with
    | .serving true, some b => { s with phase := .storing b }
    | _, _ => s
  | .bondSet flash =>
    match s.phase with
    | .storing b => { onNewBond s b flash with phase := .serving true }
    | _ => s
  | .disconnected =>
    match s.phase with
    | .serving _ => hangUp s
    | _ => s
  | .resume =>
    match s.phase with
    | .pause => { s with phase := .advertising }
    | _ => s
  | .reboot => reboot s

section Laws

/-! What each part of a step can change. -/

variable (s : State)

theorem cfgSet_eq (key val : Text) (flash : Bool) :
    ∃ cfg, cfgSet s key val flash = { s with cfg := cfg } := by
  unfold cfgSet
  split
  · exact ⟨_, rfl⟩
  · exact ⟨s.cfg, rfl⟩

theorem onNewBond_eq (b : BondInformation) (flash : Bool) :
    onNewBond s b flash =
      if flash then pairClose { s with
        cfg := store s.cfg .bleBond (bondEncode b)
        bondedAddr := some b.identity.bdAddr
        stored := s.stored ++ [⟨b.identity.bdAddr, pairable s⟩] }
      else s := by
  unfold onNewBond
  rw [set_bondEncode]
  cases flash with
  | true => rfl
  | false => rfl

theorem emit_eq (r : Report) : ∃ rs b, emit s r = { s with reports := rs, blocked := b } := by
  unfold emit sendReport
  split
  · exact ⟨s.reports, s.blocked, rfl⟩
  · split
    · split
      · exact ⟨_, s.blocked, rfl⟩
      · exact ⟨s.reports, _, rfl⟩
    · exact ⟨s.reports, s.blocked, rfl⟩

theorem pollSend_eq : ∃ rs b, pollSend s = { s with reports := rs, blocked := b } := by
  unfold pollSend
  split
  · split
    · exact ⟨_, none, rfl⟩
    · exact ⟨s.reports, s.blocked, rfl⟩
  · exact ⟨s.reports, s.blocked, rfl⟩

theorem notify_eq : ∃ rs ns, notify s = { s with reports := rs, notified := ns } := by
  unfold notify
  split
  · exact ⟨_, _, rfl⟩
  · exact ⟨s.reports, s.notified, rfl⟩

/-- Another host than the bonded one is turned away where the window is closed. -/
theorem accept_eq (peer : BdAddr) :
    accept s peer =
      if s.bondedAddr = some peer ∨ pairWindowOpen s = true then serve s peer
      else { s with phase := .pause } := by
  unfold accept
  by_cases h : s.bondedAddr = some peer ∨ pairWindowOpen s = true
  · have hgate : (!pairWindowOpen s && decide (s.bondedAddr ≠ some peer)) = false := by
      rcases h with h | h
      · rw [h, decide_eq_false (fun hne => hne rfl), Bool.and_false]
      · rw [h, Bool.not_true, Bool.false_and]
    rw [if_pos h, hgate, if_neg Bool.false_ne_true]
  · obtain ⟨hb, hw⟩ := not_or.mp h
    rw [if_neg h, Bool.eq_false_iff.mpr hw, decide_eq_true hb, Bool.not_false, Bool.and_true,
      if_pos rfl]

theorem takeBondClear_eq : ∃ addr clear phase conn rs, takeBondClear s =
    { s with
      bondedAddr := addr, bondClear := clear, phase := phase, connected := conn, reports := rs } := by
  have hsame : ∃ addr clear phase conn rs, s =
      { s with
        bondedAddr := addr, bondClear := clear, phase := phase, connected := conn,
        reports := rs } := ⟨s.bondedAddr, s.bondClear, s.phase, s.connected, s.reports, rfl⟩
  unfold takeBondClear handleBondClear hangUp
  split
  · exact hsame
  · split
    · exact ⟨none, false, s.phase, s.connected, s.reports, rfl⟩
    · exact ⟨none, false, .pause, false, [], rfl⟩
    · exact hsame
    · exact hsame

end Laws

def erasedCfg : Cfg where
  table := fun _ => none
  defName := []
  defHostname := []

def host : BdAddr := #v[1, 2, 3, 4, 5, 6]

end AtNode.KbdBle
