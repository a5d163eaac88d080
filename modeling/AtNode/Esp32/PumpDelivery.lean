import AtNode.Esp32.TunnelPump

/-!
# What a session delivers

In every state of every session the bytes that are written to a side are, in order, those that were
read from the other side, but for what the current `write_all` still holds. A side is closed when the
other stream has ended and all of it was written, and a direction is given up only then or in an
error. While no connection fails, the task and the stack deliver everything that has arrived.
-/

namespace AtNode.TunnelPump

section Delivery

variable {s : Session} {x y : Side} {n : ℕ}

/-- The stack sends all that was written. -/
def sendAll (s : Session) : Session :=
  [Side.remote, Side.near].foldl (fun s x => step s (.transmit x (s.sock x).tx.length)) s

def turn (s : Session) (n : ℕ) : Session := step (sendAll s) (.poll n)

/-- The task waits in the `select` with nothing to read, or the session is over. -/
def Stuck (s : Session) : Prop :=
  s.phase = .left ∨ (s.phase = .select ∧ ∀ n, selectReads s n = none)

def sideWork (s : Session) (x : Side) : ℕ := 2 * (s.sock x).rx.length + if s.isOpen x then 2 else 0

def phaseWork : Phase → ℕ
  | .writing _ rest => rest.length
  | .flushing _ => 1
  | .select => 0
  | .left => 0

def work (s : Session) : ℕ := sideWork s .remote + sideWork s .near + phaseWork s.phase

def Socket.drained (a : Socket) : Socket := { a with sent := a.written, tx := [] }

theorem transmit_all {a : Socket} (h : a.down = false) : a.transmit a.tx.length = a.drained := by
  have hup : ¬ a.down = true := by
    rw [h]
    exact Bool.false_ne_true
  rw [Socket.transmit, if_neg hup, List.take_length, List.drop_length]
  rfl

theorem sendAll_eq (hphase : s.phase ≠ .left) (hup : ∀ x, (s.sock x).down = false) :
    sendAll s = { s with sock := fun x => (s.sock x).drained } := by
  have hremote : step s (.transmit .remote (s.sock .remote).tx.length) =
      s.setSock .remote (s.sock .remote).drained := by
    rw [step, if_neg hphase, transmit_all (hup .remote)]
  have hnear : (s.setSock .remote (s.sock .remote).drained).sock .near = s.sock .near :=
    setSock_other (x := .remote)
  have hphase' : (s.setSock .remote (s.sock .remote).drained).phase ≠ .left := hphase
  rw [sendAll, List.foldl_cons, hremote, List.foldl_cons, List.foldl_nil, step, if_neg hphase', hnear,
    transmit_all (hup .near)]
  have hsock : ((s.setSock .remote (s.sock .remote).drained).setSock .near (s.sock .near).drained).sock =
      fun x => (s.sock x).drained := by
    funext x
    cases x with
    | remote => rfl
    | near => rfl
  rw [← hsock]
  rfl

theorem work_eq (s : Session) (x : Side) :
    work s = sideWork s x + sideWork s x.other + phaseWork s.phase := by
  cases x with
  | remote => rfl
  | near => rw [work, Nat.add_comm (sideWork s .remote)]; rfl

theorem sideWork_setSock (s : Session) (x : Side) (c : Socket) (isOpen : Side → Bool)
    (phase : Phase) :
    sideWork { s.setSock x c with isOpen := isOpen, phase := phase } x =
      2 * c.rx.length + if isOpen x then 2 else 0 := by
  have hsock : ({ s.setSock x c with isOpen := isOpen, phase := phase } : Session).sock x = c :=
    setSock_self
  rw [sideWork, hsock]

theorem sideWork_setSock_other (s : Session) (x : Side) (c : Socket) (isOpen : Side → Bool)
    (phase : Phase) :
    sideWork { s.setSock x c with isOpen := isOpen, phase := phase } x.other =
      2 * (s.sock x.other).rx.length + if isOpen x.other then 2 else 0 := by
  have hsock : ({ s.setSock x c with isOpen := isOpen, phase := phase } : Session).sock x.other =
      s.sock x.other := setSock_other
  rw [sideWork, hsock]

theorem read_eq_none_iff {a : Socket} :
    a.read n = none ↔ a.rx = [] ∧ a.fin = false ∧ a.down = false := by
  unfold Socket.read
  split_ifs with hrx hfin hdown
  · exact iff_of_false id fun h => hrx h.1
  · exact iff_of_false id fun h => by rw [hfin] at h; cases h.2.1
  · exact iff_of_false id fun h => by rw [hdown] at h; cases h.2.2
  · exact iff_of_true rfl ⟨not_not.mp hrx, eq_false_of_ne_true hfin, eq_false_of_ne_true hdown⟩

theorem selectReads_eq_none_iff : selectReads s n = none ↔ ∀ x, s.isOpen x = true →
    (s.sock x).rx = [] ∧ (s.sock x).fin = false ∧ (s.sock x).down = false := by
  have hside : ∀ x, readSide s n x = none ↔ (s.isOpen x = true →
      (s.sock x).rx = [] ∧ (s.sock x).fin = false ∧ (s.sock x).down = false) := by
    intro x
    rw [readSide]
    split_ifs with hopen
    · rw [Option.map_eq_none_iff, read_eq_none_iff]
      exact ⟨fun h _ => h, fun h => h hopen⟩
    · exact iff_of_true rfl fun h => absurd h hopen
  rw [selectReads, Option.orElse_eq_or, Option.or_eq_none_iff, hside, hside, forall_side .remote]
  rfl

theorem work_setSock (s : Session) (x : Side) (c : Socket) (isOpen : Side → Bool) (phase : Phase) :
    work { s.setSock x c with isOpen := isOpen, phase := phase } =
      (2 * c.rx.length + if isOpen x then 2 else 0) +
        (2 * (s.sock x.other).rx.length + if isOpen x.other then 2 else 0) + phaseWork phase := by
  rw [work_eq _ x, sideWork_setSock, sideWork_setSock_other]

theorem work_loopTop (s : Session) (x : Side) (c : Socket) (hrx : c.rx = (s.sock x).rx) :
    work (loopTop (s.setSock x c)) = sideWork s x + sideWork s x.other := by
  have hwork : ∀ phase, phaseWork phase = 0 →
      work { s.setSock x c with phase := phase } = sideWork s x + sideWork s x.other := by
    intro phase hphase
    have hafter := work_setSock s x c s.isOpen phase
    rw [hphase, hrx] at hafter
    exact hafter
  rcases loopTop_cases (s.setSock x c) with heq | ⟨-, heq⟩
  · rw [heq]
    exact hwork .select rfl
  · rw [heq]
    exact hwork .left rfl

theorem select_progress (hup : ∀ x, (s.sock x).down = false) (hphase : s.phase = .select)
    {r : ReadResult} {c : Socket} (hread : selectReads s n = some (x, r, c)) :
    work (poll s n) < work s := by
  obtain ⟨hopen, hread'⟩ := selectReads_cases hread
  have hpoll : poll s n = dispatch (s.setSock x c) x r := by
    rw [poll, hphase]
    dsimp only
    rw [hread]
  have hbefore := work_eq s x
  rw [sideWork, hopen, hphase, phaseWork] at hbefore
  rw [hpoll]
  rcases read_cases hread' with ⟨k, hne, rfl, rfl⟩ | ⟨hfin, hrx, rfl, rfl⟩ | ⟨hdown, -⟩
  · have hpos : 0 < ((s.sock x).rx.take k).length := List.length_pos_iff.mpr hne
    have hsplit := congrArg List.length (List.take_append_drop k (s.sock x).rx)
    have hafter := work_setSock s x { s.sock x with
      rx := (s.sock x).rx.drop k, taken := (s.sock x).taken ++ (s.sock x).rx.take k } s.isOpen
      (.writing x.other ((s.sock x).rx.take k))
    rw [hopen, phaseWork] at hafter
    rw [List.length_append] at hsplit
    refine lt_of_eq_of_lt hafter ?_
    rw [hbefore, sideWork]
    dsimp only
    omega
  · have hafter := work_setSock s x (s.sock x) (Function.update s.isOpen x false)
      (.flushing x.other)
    rw [Function.update_self, Function.update_of_ne (other_ne x), phaseWork] at hafter
    refine lt_of_eq_of_lt hafter ?_
    rw [hbefore, sideWork, if_pos rfl, if_neg Bool.false_ne_true]
    omega
  · rw [hup x] at hdown
    cases hdown

theorem write_progress (h : Inv s) (hup : ∀ x, (s.sock x).down = false) (hn : 0 < n)
    {rest : List UInt8} (hphase : s.phase = .writing x rest) : work (poll s n) < work s := by
  have hto := (h.at x).2
  rw [hphase] at hto
  obtain ⟨hopen, hne⟩ := hto.writing rest rfl
  have hpos : 0 < rest.length := List.length_pos_iff.mpr hne
  have hclosed : (s.sock x).closed = false := eq_false_of_ne_true fun hcl => by
    rw [(hto.closed hcl).1] at hopen
    cases hopen
  have hwrite : (s.sock x).write rest n =
      some (rest.drop n, { s.sock x with tx := (s.sock x).tx ++ rest.take n }) := by
    have hready : ¬ ((s.sock x).down || (s.sock x).closed) = true := by
      rw [hup x, hclosed]
      exact Bool.false_ne_true
    exact if_neg hready
  have hbefore := work_eq s x
  rw [hphase, phaseWork] at hbefore
  rw [poll, hphase]
  dsimp only
  rw [hwrite]
  cases hrest : rest.drop n with
  | nil =>
    refine lt_of_eq_of_lt (work_loopTop s x _ rfl) ?_
    rw [hbefore]
    exact Nat.lt_add_of_pos_right hpos
  | cons c cs =>
    have hafter := work_setSock s x { s.sock x with tx := (s.sock x).tx ++ rest.take n } s.isOpen
      (.writing x (c :: cs))
    have hlen := congrArg List.length hrest
    rw [List.length_drop] at hlen
    refine lt_of_eq_of_lt hafter ?_
    rw [hbefore, phaseWork, sideWork, sideWork]
    dsimp only
    omega

theorem flush_progress (hsent : ∀ x, (s.sock x).tx = []) (hphase : s.phase = .flushing x) :
    work (poll s n) < work s := by
  have hflushed : (s.sock x).flushed = true := by
    rw [Socket.flushed, hsent x]
    rfl
  have hbefore := work_eq s x
  rw [hphase, phaseWork] at hbefore
  rw [poll, hphase]
  dsimp only
  rw [if_pos hflushed]
  refine lt_of_eq_of_lt (work_loopTop s x _ rfl) ?_
  rw [hbefore]
  exact Nat.lt_succ_self _

theorem poll_progress (h : Inv s) (hup : ∀ x, (s.sock x).down = false)
    (hsent : ∀ x, (s.sock x).tx = []) (hn : 0 < n) : Stuck s ∨ work (poll s n) < work s := by
  cases hphase : s.phase with
  | select =>
    cases hread : selectReads s n with
    | none =>
      have hready := selectReads_eq_none_iff.mp hread
      exact Or.inl (Or.inr ⟨hphase, fun m => selectReads_eq_none_iff.mpr hready⟩)
    | some r => exact Or.inr (select_progress hup hphase hread)
  | writing y rest => exact Or.inr (write_progress h hup hn hphase)
  | flushing y => exact Or.inr (flush_progress hsent hphase)
  | left => exact Or.inl (Or.inl hphase)

structure Kept (s s' : Session) : Prop where
  arrived : ∀ x, (s'.sock x).arrived = (s.sock x).arrived
  fin : ∀ x, (s'.sock x).fin = (s.sock x).fin
  down : ∀ x, (s'.sock x).down = (s.sock x).down

theorem Kept.refl (s : Session) : Kept s s := ⟨fun _ => rfl, fun _ => rfl, fun _ => rfl⟩

theorem Kept.trans {s s' s'' : Session} (h : Kept s s') (h' : Kept s' s'') : Kept s s'' :=
  ⟨fun x => (h'.arrived x).trans (h.arrived x), fun x => (h'.fin x).trans (h.fin x),
    fun x => (h'.down x).trans (h.down x)⟩

theorem kept_setSock (x : Side) {c : Socket} {s' : Session} (hs' : s'.sock = (s.setSock x c).sock)
    (harr : c.arrived = (s.sock x).arrived) (hfin : c.fin = (s.sock x).fin)
    (hdown : c.down = (s.sock x).down) : Kept s s' := by
  refine ⟨?_, ?_, ?_⟩
  · rw [hs', forall_side x, setSock_self, setSock_other]
    exact ⟨harr, rfl⟩
  · rw [hs', forall_side x, setSock_self, setSock_other]
    exact ⟨hfin, rfl⟩
  · rw [hs', forall_side x, setSock_self, setSock_other]
    exact ⟨hdown, rfl⟩

theorem sock_loopTop (s : Session) : (loopTop s).sock = s.sock := by
  rcases loopTop_cases s with heq | ⟨-, heq⟩
  · rw [heq]
  · rw [heq]

theorem kept_dispatch {a : Socket} {r : ReadResult} (h : (s.sock x).read n = some (r, a)) :
    Kept s (dispatch (s.setSock x a) x r) := by
  rcases read_cases h with ⟨k, -, rfl, rfl⟩ | ⟨-, -, rfl, rfl⟩ | ⟨-, -, -, rfl, rfl⟩
  · exact kept_setSock x rfl rfl rfl rfl
  · exact kept_setSock x rfl rfl rfl rfl
  · exact kept_setSock x rfl rfl rfl rfl

theorem kept_poll (s : Session) (n : ℕ) : Kept s (poll s n) := by
  cases hphase : s.phase with
  | select =>
    rw [poll, hphase]
    dsimp only
    split
    · rename_i x r sock hread
      exact kept_dispatch (selectReads_cases hread).2
    · exact .refl s
  | writing y rest =>
    rw [poll, hphase]
    dsimp only
    cases hw : (s.sock y).write rest n with
    | none => exact ⟨fun _ => rfl, fun _ => rfl, fun _ => rfl⟩
    | some r =>
      obtain ⟨rest', sock⟩ := r
      obtain ⟨sent, -, rfl⟩ := write_cases hw
      cases rest' with
      | nil => exact kept_setSock y (sock_loopTop _) rfl rfl rfl
      | cons c cs => exact kept_setSock y rfl rfl rfl rfl
  | flushing y =>
    rw [poll, hphase]
    dsimp only
    split_ifs
    · exact kept_setSock y (sock_loopTop _) rfl rfl rfl
    · exact .refl s
  | left =>
    rw [poll, hphase]
    exact .refl s

theorem stuck_iff (hover : s.phase ≠ .left) :
    Stuck s ↔ s.phase = .select ∧ selectReads s 0 = none := by
  constructor
  · rintro (hend | ⟨hselect, hnone⟩)
    · exact absurd hend hover
    · exact ⟨hselect, hnone 0⟩
  · rintro ⟨hselect, hnone⟩
    have hready := selectReads_eq_none_iff.mp hnone
    exact Or.inr ⟨hselect, fun m => selectReads_eq_none_iff.mpr hready⟩

theorem stuck_sendAll (hover : s.phase ≠ .left) (hup : ∀ x, (s.sock x).down = false) :
    Stuck (sendAll s) ↔ Stuck s := by
  have hsend := sendAll_eq hover hup
  have hover' : (sendAll s).phase ≠ .left := by
    rw [hsend]
    exact hover
  have hreads : selectReads (sendAll s) 0 = none ↔ selectReads s 0 = none := by
    rw [hsend, selectReads_eq_none_iff, selectReads_eq_none_iff]
    rfl
  have hphase : (sendAll s).phase = s.phase := by rw [hsend]
  rw [stuck_iff hover', stuck_iff hover, hreads, hphase]

theorem stuck_poll (h : Stuck s) : poll s n = s := by
  rcases h with hend | ⟨hselect, hnone⟩
  · rw [poll, hend]
  · rw [poll, hselect]
    dsimp only
    rw [hnone n]

/-- The rule of one turn while no connection fails. -/
structure Turned (s s' : Session) : Prop where
  inv : Inv s'
  kept : Kept s s'
  stuck : Stuck s → Stuck s'
  progress : Stuck s ∨ work s' < work s

theorem turned (h : Inv s) (hup : ∀ x, (s.sock x).down = false) (hn : 0 < n) :
    Turned s (turn s n) := by
  by_cases hover : s.phase = .left
  · have hstep : ∀ e, step s e = s := fun e => if_pos hover
    have hturn : turn s n = s := by
      rw [turn, sendAll, List.foldl_cons, hstep, List.foldl_cons, hstep, List.foldl_nil, hstep]
    rw [hturn]
    exact ⟨h, .refl s, id, Or.inl (Or.inl hover)⟩
  · have hall := sendAll_eq hover hup
    have hinv : Inv (sendAll s) := inv_step (inv_step h (.transmit .remote _)) (.transmit .near _)
    have hstuck := stuck_sendAll hover hup
    have hturn : turn s n = poll (sendAll s) n := by
      have hphase : ¬ (sendAll s).phase = .left := by
        rw [hall]
        exact hover
      rw [turn, step, if_neg hphase]
    have hkept : Kept s (sendAll s) := by
      rw [hall]
      exact ⟨fun _ => rfl, fun _ => rfl, fun _ => rfl⟩
    have hsent : ∀ x, ((sendAll s).sock x).tx = [] := by
      rw [hall]
      exact fun _ => rfl
    have hwork : work (sendAll s) = work s := by
      rw [hall]
      rfl
    have hprogress := poll_progress hinv (fun x => (hkept.down x).trans (hup x)) hsent hn
    rw [hstuck, hwork] at hprogress
    rw [hturn]
    refine ⟨inv_poll hinv n, hkept.trans (kept_poll _ n), fun hs => ?_, hprogress⟩
    rw [stuck_poll (hstuck.mpr hs)]
    exact hstuck.mpr hs

theorem turns {ns : List ℕ} (h : Inv s) (hup : ∀ x, (s.sock x).down = false)
    (hns : ∀ n ∈ ns, 0 < n) :
    Inv (Run.final turn s ns) ∧ Kept s (Run.final turn s ns) ∧
      (Stuck s → Stuck (Run.final turn s ns)) ∧
      (Stuck (Run.final turn s ns) ∨ work (Run.final turn s ns) + ns.length ≤ work s) := by
  induction ns generalizing s with
  | nil => exact ⟨h, .refl s, id, Or.inr (Nat.le_refl _)⟩
  | cons n ns ih =>
    have hturn := turned h hup (hns n List.mem_cons_self)
    have hup' : ∀ x, ((turn s n).sock x).down = false := fun x => (hturn.kept.down x).trans (hup x)
    obtain ⟨hinv, hkept, hstuck, hdone⟩ :=
      ih hturn.inv hup' fun m hm => hns m (List.mem_cons_of_mem _ hm)
    refine ⟨hinv, hturn.kept.trans hkept, fun hs => hstuck (hturn.stuck hs), ?_⟩
    rcases hturn.progress with hs | hlt
    · exact Or.inl (hstuck (hturn.stuck hs))
    · refine hdone.imp_right fun hle => ?_
      rw [Run.final_cons, List.length_cons]
      omega

/-- A task that is stuck has delivered everything. -/
theorem delivered_of_stuck (h : Inv s) (hup : ∀ x, (s.sock x).down = false) (hstuck : Stuck s)
    (x : Side) : (s.sock x.other).written = (s.sock x).arrived ∧
      ((s.sock x).fin = true → (s.sock x.other).closed = true) := by
  have hflow := h.flow x
  rcases hstuck with hover | ⟨hselect, hnone⟩
  · have hended : s.isOpen x = false := by
      rcases h.left hover with hall | ⟨y, hdown⟩
      · exact hall x
      · rw [hup y] at hdown
        cases hdown
    obtain ⟨-, hrx, hclosed⟩ := hflow.ended hended
    have hclosed := hclosed.resolve_right (by rw [hover]; exact Phase.noConfusion)
    refine ⟨?_, fun _ => hclosed⟩
    rw [(hflow.closed hclosed).2.1, hflow.kept, hrx, List.append_nil]
  · have hpumped := hflow.pumped (by rw [hselect]; exact Phase.noConfusion)
    have hrest : (s.sock x).rx = [] ∧ ((s.sock x).fin = true → (s.sock x.other).closed = true) := by
      cases hopen : s.isOpen x with
      | true =>
        obtain ⟨hrx, hfin, -⟩ := selectReads_eq_none_iff.mp (hnone 0) x hopen
        refine ⟨hrx, fun h => ?_⟩
        rw [hfin] at h
        cases h
      | false =>
        obtain ⟨-, hrx, hclosed⟩ := hflow.ended hopen
        exact ⟨hrx, fun _ => hclosed.resolve_right (by rw [hselect]; exact Phase.noConfusion)⟩
    rw [hselect] at hpumped
    refine ⟨?_, hrest.2⟩
    rw [hflow.kept, hrest.1, List.append_nil, hpumped]
    exact (List.append_nil _).symm

end Delivery

section Fidelity

/-- What holds between the two sockets of a session. -/
structure Faithful (s : Session) : Prop where
  /-- A read that is dropped takes nothing. -/
  kept : ∀ x, (s.sock x).arrived = (s.sock x).taken ++ (s.sock x).rx
  inOrder : ∀ x : Side, (s.sock x.other).written <+: (s.sock x).taken
  /-- Nothing that was read is lost but what the current `write_all` still holds. -/
  whole : s.phase ≠ .left → ∀ x : Side,
    (s.sock x).taken = (s.sock x.other).written ++ s.phase.pending x.other
  /-- A side is closed for writing behind all the bytes of the other stream, when they are sent. -/
  close : ∀ x : Side, (s.sock x.other).closed = true → (s.sock x).fin = true ∧
    (s.sock x.other).written = (s.sock x).arrived ∧
    ((s.sock x.other).tx = [] ∨ (s.sock x.other).down = true)
  /-- A direction ends with its own stream. -/
  reads : ∀ x, s.isOpen x = false → (s.sock x).fin = true ∧ (s.sock x).rx = []
  /-- The session ends when both streams have ended, or with a connection. -/
  left : s.phase = .left →
    (∀ x : Side, (s.sock x.other).closed = true) ∨ ∃ x, (s.sock x).down = true

theorem faithful_of_inv {s : Session} (h : Inv s) : Faithful s := by
  refine ⟨fun x => (h.flow x).kept, fun x => (h.flow x).inOrder, fun hne x => (h.flow x).pumped hne,
    fun x hcl => ?_, fun x hop => ?_, fun hover => ?_⟩
  · obtain ⟨hop, hwritten, hsent⟩ := (h.flow x).closed hcl
    obtain ⟨hfin, hrx, -⟩ := (h.flow x).ended hop
    refine ⟨hfin, ?_, hsent⟩
    rw [hwritten, (h.flow x).kept, hrx, List.append_nil]
  · obtain ⟨hfin, hrx, -⟩ := (h.flow x).ended hop
    exact ⟨hfin, hrx⟩
  · refine (h.left hover).imp_left fun hended x => ?_
    have hclosed := ((h.flow x).ended (hended x)).2.2
    exact hclosed.resolve_right (by rw [hover]; exact Phase.noConfusion)

/-- Every state of every session is faithful; and from each of them, while no connection fails, the
turns of the task deliver all that has arrived, and close a side when the other stream has ended. -/
theorem pump_faithful (es : List Event) :
    Run.Always step Faithful init es ∧
      ∀ ns : List ℕ, (∀ n ∈ ns, 0 < n) → (∀ x, ((Run.final step init es).sock x).down = false) →
        work (Run.final step init es) < ns.length → ∀ x,
          ((Run.final turn (Run.final step init es) ns).sock x.other).written =
              ((Run.final step init es).sock x).arrived ∧
            (((Run.final step init es).sock x).fin = true →
              ((Run.final turn (Run.final step init es) ns).sock x.other).closed = true) := by
  have halways : Run.Always step Inv init es := Run.always_of_step (fun _ e h => inv_step h e) inv_init
  refine ⟨halways.mono fun _ => faithful_of_inv, fun ns hns hup hlen x => ?_⟩
  obtain ⟨hinv, hkept, -, hdone⟩ := turns halways.final hup hns
  have hstuck := hdone.resolve_right (by omega)
  have hup' := fun x => (hkept.down x).trans (hup x)
  obtain ⟨hwritten, hclosed⟩ := delivered_of_stuck hinv hup' hstuck x
  rw [hkept.arrived] at hwritten
  rw [hkept.fin] at hclosed
  exact ⟨hwritten, hclosed⟩

end Fidelity

end AtNode.TunnelPump
