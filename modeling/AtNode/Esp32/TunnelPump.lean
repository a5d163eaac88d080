import Mathlib.Data.List.Basic
import Mathlib.Logic.Function.Basic
import AtNode.Lib.Run

/-!
# The pump of a forwarded session

A session copies between the socket of the tunnel server and a local socket. One task waits for a
read on either side, writes what it has read to the other side with `write_all`, and at the end of a
stream flushes and closes the other side. When both streams have ended, or at the first error, the
session is over.

What arrives, what the network stack sends, and when the task is polled are inputs. A read takes
bytes only when it is ready, so a read that is dropped because the other one was first takes none.
-/

namespace AtNode.TunnelPump

inductive Side where
  | remote
  | near
  deriving DecidableEq

def Side.other : Side → Side
  | .remote => .near
  | .near => .remote

abbrev pumpBuf : ℕ := 1460

structure Socket where
  /-- All the bytes that have come in. -/
  arrived : List UInt8
  /-- Those of them that are still to be read. -/
  rx : List UInt8
  /-- The bytes the pump has read. -/
  taken : List UInt8
  /-- The stream has ended behind these bytes. -/
  fin : Bool
  /-- The connection is reset or timed out. -/
  down : Bool
  /-- The bytes written that are on their way, and those that are still in the buffer. -/
  sent : List UInt8
  tx : List UInt8
  /-- Closed for writing. -/
  closed : Bool

def Socket.fresh : Socket := ⟨[], [], [], false, false, [], [], false⟩

def Socket.written (s : Socket) : List UInt8 := s.sent ++ s.tx

/-- Where the task is suspended. -/
inductive Phase where
  /-- In the `select` of the reads. -/
  | select
  /-- In `write_all`, with the bytes that are left. -/
  | writing (dst : Side) (rest : List UInt8)
  /-- In the `flush` before the close. -/
  | flushing (dst : Side)
  | left
  deriving DecidableEq

structure Session where
  sock : Side → Socket
  /-- `remote_open` and `local_open`. -/
  isOpen : Side → Bool
  phase : Phase

inductive Event where
  | arrive (x : Side) (bytes : List UInt8)
  | fin (x : Side)
  | reset (x : Side)
  /-- The stack sends so many bytes. -/
  | transmit (x : Side) (n : ℕ)
  /-- The task is polled; a read takes one byte more than the number at most, a write as many as the
  number. -/
  | poll (n : ℕ)

section Sockets

inductive ReadResult where
  | data (bytes : List UInt8)
  | eof
  | error

/-- `read` into a buffer; without a result it is not ready. -/
def Socket.read (s : Socket) (n : ℕ) : Option (ReadResult × Socket) :=
  if s.rx ≠ [] then
    let k := min pumpBuf (n + 1)
    some (.data (s.rx.take k), { s with rx := s.rx.drop k, taken := s.taken ++ s.rx.take k })
  else if s.fin then some (.eof, s)
  else if s.down then some (.error, s)
  else none

/-- One `write` of `write_all`: what is left, unless it fails. -/
def Socket.write (s : Socket) (bytes : List UInt8) (n : ℕ) : Option (List UInt8 × Socket) :=
  if s.down || s.closed then none
  else some (bytes.drop n, { s with tx := s.tx ++ bytes.take n })

/-- `flush` returns when everything is sent, or when nothing will be. -/
def Socket.flushed (s : Socket) : Bool := s.tx.isEmpty || s.down

/-- What comes in before the end of the stream. -/
def Socket.arrive (s : Socket) (bytes : List UInt8) : Socket :=
  if s.fin || s.down then s else { s with arrived := s.arrived ++ bytes, rx := s.rx ++ bytes }

def Socket.finish (s : Socket) : Socket := if s.down then s else { s with fin := true }

def Socket.transmit (s : Socket) (n : ℕ) : Socket :=
  if s.down then s else { s with sent := s.sent ++ s.tx.take n, tx := s.tx.drop n }

end Sockets

section Loop

def Session.setSock (s : Session) (x : Side) (sock : Socket) : Session :=
  { s with sock := Function.update s.sock x sock }

def loopTop (s : Session) : Session :=
  if !s.isOpen .remote && !s.isOpen .near then { s with phase := .left }
  else { s with phase := .select }

/-- A read of the `select`; that of a side that has ended is never ready. -/
def readSide (s : Session) (n : ℕ) (x : Side) : Option (Side × ReadResult × Socket) :=
  if s.isOpen x then ((s.sock x).read n).map fun r => (x, r) else none

/-- The reads are polled one behind the other. -/
def selectReads (s : Session) (n : ℕ) : Option (Side × ReadResult × Socket) :=
  (readSide s n .remote).orElse fun _ => readSide s n .near

def dispatch (s : Session) (x : Side) : ReadResult → Session
  | .data bytes => { s with phase := .writing x.other bytes }
  | .eof => { s with isOpen := Function.update s.isOpen x false, phase := .flushing x.other }
  | .error => { s with phase := .left }

def poll (s : Session) (n : ℕ) : Session :=
  match s.phase with
  | .select =>
    match selectReads s n with
    | some (x, r, sock) => dispatch (s.setSock x sock) x r
    | none => s
  | .writing y rest =>
    match (s.sock y).write rest n with
    | none => { s with phase := .left }
    | some ([], sock) => loopTop (s.setSock y sock)
    | some (rest, sock) => { s.setSock y sock with phase := .writing y rest }
  | .flushing y =>
    if (s.sock y).flushed then loopTop (s.setSock y { s.sock y with closed := true }) else s
  | .left => s

/-- The sockets are dropped with the session. -/
def step (s : Session) (e : Event) : Session :=
  if s.phase = .left then s
  else
    match e with
    | .arrive x bytes => s.setSock x ((s.sock x).arrive bytes)
    | .fin x => s.setSock x (s.sock x).finish
    | .reset x => s.setSock x { s.sock x with down := true }
    | .transmit x n => s.setSock x ((s.sock x).transmit n)
    | .poll n => poll s n

def init : Session := ⟨fun _ => .fresh, fun _ => true, .select⟩

end Loop

section Invariant

variable {s : Session} {a b c : Socket} {op : Bool} {phase : Phase} {x y : Side}

/-- The bytes that were read for a side and are still to be written. -/
def Phase.pending : Phase → Side → List UInt8
  | .writing dst rest, y => if dst = y then rest else []
  | _, _ => []

/-- One direction: from the first socket to the second, which is the one of side `y`. -/
structure Flow (a b : Socket) (op : Bool) (phase : Phase) (y : Side) : Prop where
  kept : a.arrived = a.taken ++ a.rx
  pumped : phase ≠ .left → a.taken = b.written ++ phase.pending y
  inOrder : b.written <+: a.taken
  ended : op = false → a.fin = true ∧ a.rx = [] ∧ (b.closed = true ∨ phase = .flushing y)
  closed : b.closed = true → op = false ∧ b.written = a.taken ∧ (b.tx = [] ∨ b.down = true)
  flushing : phase = .flushing y → op = false
  writing : ∀ rest, phase = .writing y rest → op = true ∧ rest ≠ []

structure Inv (s : Session) : Prop where
  flow : ∀ x, Flow (s.sock x) (s.sock x.other) (s.isOpen x) s.phase x.other
  left : s.phase = .left → (∀ x, s.isOpen x = false) ∨ ∃ x, (s.sock x).down = true

theorem inv_init : Inv init := by
  refine ⟨fun x => ⟨rfl, fun _ => rfl, List.prefix_rfl, ?_, ?_, ?_, ?_⟩, ?_⟩
  · exact fun h => Bool.noConfusion (show true = false from h)
  · exact fun h => Bool.noConfusion (show false = true from h)
  · exact fun h => absurd h Phase.noConfusion
  · exact fun rest h => absurd h Phase.noConfusion
  · exact fun h => absurd h Phase.noConfusion

@[simp] theorem other_other (x : Side) : x.other.other = x := by
  cases x with
  | remote => rfl
  | near => rfl

theorem other_ne (x : Side) : x.other ≠ x := by
  cases x with
  | remote => decide
  | near => decide

theorem forall_side {P : Side → Prop} (x : Side) : (∀ y, P y) ↔ P x ∧ P x.other := by
  refine ⟨fun h => ⟨h x, h x.other⟩, fun h y => ?_⟩
  cases x with
  | remote =>
    cases y with
    | remote => exact h.1
    | near => exact h.2
  | near =>
    cases y with
    | remote => exact h.2
    | near => exact h.1

@[simp] theorem setSock_self : (s.setSock x a).sock x = a := Function.update_self _ _ _

@[simp] theorem setSock_other : (s.setSock x a).sock x.other = s.sock x.other :=
  Function.update_of_ne (other_ne x) _ _

@[simp] theorem setSock_isOpen : (s.setSock x a).isOpen = s.isOpen := rfl

/-- What happens to a socket while the task is suspended. -/
structure Outside (a a' : Socket) : Prop where
  came : ∃ bytes, a'.arrived = a.arrived ++ bytes ∧ a'.rx = a.rx ++ bytes ∧ (a.fin = true → bytes = [])
  taken : a'.taken = a.taken
  fin : a.fin = true → a'.fin = true
  down : a.down = true → a'.down = true
  written : a'.written = a.written
  tx : a.tx = [] ∨ a.down = true → a'.tx = [] ∨ a'.down = true
  closed : a'.closed = a.closed

theorem Outside.refl (a : Socket) : Outside a a :=
  ⟨⟨[], (List.append_nil _).symm, (List.append_nil _).symm, fun _ => rfl⟩, rfl, id, id, rfl, id, rfl⟩

theorem outside_arrive (bytes : List UInt8) : Outside a (a.arrive bytes) := by
  unfold Socket.arrive
  split_ifs with h
  · exact .refl a
  · rw [Bool.or_eq_true, not_or] at h
    exact ⟨⟨bytes, rfl, rfl, fun hfin => absurd hfin h.1⟩, rfl, id, id, rfl, id, rfl⟩

theorem outside_finish : Outside a a.finish := by
  unfold Socket.finish
  split_ifs with h
  · exact .refl a
  · exact ⟨⟨[], (List.append_nil _).symm, (List.append_nil _).symm, fun _ => rfl⟩, rfl, fun _ => rfl, id,
      rfl, id, rfl⟩

theorem outside_reset : Outside a { a with down := true } :=
  ⟨⟨[], (List.append_nil _).symm, (List.append_nil _).symm, fun _ => rfl⟩, rfl, id, fun _ => rfl, rfl,
    fun _ => Or.inr rfl, rfl⟩

theorem outside_transmit (n : ℕ) : Outside a (a.transmit n) := by
  unfold Socket.transmit
  split_ifs with h
  · exact .refl a
  · refine ⟨⟨[], (List.append_nil _).symm, (List.append_nil _).symm, fun _ => rfl⟩, rfl, id, id, ?_,
      fun htx => ?_, rfl⟩
    · rw [Socket.written, Socket.written, List.append_assoc, List.take_append_drop]
    · obtain htx := htx.resolve_right h
      exact Or.inl (by rw [htx, List.drop_nil])

theorem Flow.outside {a' b' : Socket} (h : Flow a b op phase y) (ha : Outside a a') (hb : Outside b b') :
    Flow a' b' op phase y := by
  obtain ⟨bytes, harr, hrx, hfin⟩ := ha.came
  refine ⟨?_, ?_, ?_, ?_, ?_, h.flushing, h.writing⟩
  · rw [harr, hrx, ha.taken, h.kept, List.append_assoc]
  · rw [ha.taken, hb.written]
    exact h.pumped
  · rw [ha.taken, hb.written]
    exact h.inOrder
  · intro hop
    obtain ⟨hend, hempty, hclosed⟩ := h.ended hop
    refine ⟨ha.fin hend, ?_, ?_⟩
    · rw [hrx, hempty, hfin hend, List.append_nil]
    · rw [hb.closed]
      exact hclosed
  · rw [hb.closed, ha.taken, hb.written]
    exact fun hclosed => ⟨(h.closed hclosed).1, (h.closed hclosed).2.1, hb.tx (h.closed hclosed).2.2⟩

/-- The task does not see what happens to a socket while it is suspended. -/
theorem inv_outside (h : Inv s) (x : Side) (ha : Outside (s.sock x) a) : Inv (s.setSock x a) := by
  have hall : ∀ y, Outside (s.sock y) ((s.setSock x a).sock y) := by
    rw [forall_side x, setSock_self, setSock_other]
    exact ⟨ha, .refl _⟩
  refine ⟨fun y => (h.flow y).outside (hall y) (hall y.other), fun hover => ?_⟩
  rcases h.left hover with hclosed | ⟨z, hz⟩
  · exact Or.inl hclosed
  · exact Or.inr ⟨z, (hall z).down hz⟩

end Invariant

section Polls

variable {s : Session} {a b a' b' : Socket} {op : Bool} {phase phase' : Phase} {x y z : Side} {n : ℕ}

def Phase.dst : Phase → Option Side
  | .writing dst _ => some dst
  | .flushing dst => some dst
  | _ => none

theorem pending_of_dst (h : phase.dst ≠ some y) : phase.pending y = [] := by
  cases phase with
  | writing dst rest => exact if_neg fun heq => h (congrArg some heq)
  | select => rfl
  | flushing dst => rfl
  | left => rfl

theorem ne_flushing_of_dst (h : phase.dst ≠ some y) : phase ≠ .flushing y := by
  rintro rfl
  exact h rfl

/-- A direction the task is not busy with, before and after. -/
theorem Flow.idle (h : Flow a b op phase y) (hdst : phase.dst ≠ some y) (hdst' : phase'.dst ≠ some y)
    (hover : phase ≠ .left)
    (ha : a'.arrived = a.arrived ∧ a'.taken = a.taken ∧ a'.rx = a.rx ∧ a'.fin = a.fin)
    (hb : b'.written = b.written ∧ b'.tx = b.tx ∧ b'.down = b.down ∧ b'.closed = b.closed) :
    Flow a' b' op phase' y := by
  obtain ⟨harr, htaken, hrx, hfin⟩ := ha
  obtain ⟨hwritten, htx, hdown, hclosed⟩ := hb
  refine ⟨?_, fun _ => ?_, ?_, fun hop => ?_, ?_, fun hf => ?_, fun rest hw => ?_⟩
  · rw [harr, htaken, hrx]
    exact h.kept
  · rw [htaken, hwritten, pending_of_dst hdst', ← pending_of_dst hdst]
    exact h.pumped hover
  · rw [htaken, hwritten]
    exact h.inOrder
  · obtain ⟨hend, hempty, hcl⟩ := h.ended hop
    rw [hfin, hrx, hclosed]
    exact ⟨hend, hempty, Or.inl (hcl.resolve_right (ne_flushing_of_dst hdst))⟩
  · rw [hclosed, hwritten, htaken, htx, hdown]
    exact h.closed
  · exact absurd hf (ne_flushing_of_dst hdst')
  · rw [hw] at hdst'
    exact absurd rfl hdst'

/-- The end of the session in an error. -/
theorem Flow.left (h : Flow a b op phase y) (hf : phase ≠ .flushing y) : Flow a b op .left y :=
  ⟨h.kept, fun hne => absurd rfl hne, h.inOrder, fun hop =>
    ⟨(h.ended hop).1, (h.ended hop).2.1, Or.inl ((h.ended hop).2.2.resolve_right hf)⟩, h.closed,
    Phase.noConfusion, fun _ hw => Phase.noConfusion hw⟩

theorem Flow.read (h : Flow a b true .select y) {k : ℕ} (hrx : a.rx.take k ≠ []) :
    Flow { a with rx := a.rx.drop k, taken := a.taken ++ a.rx.take k } b true
      (.writing y (a.rx.take k)) y := by
  have hpumped : a.taken = b.written := (h.pumped Phase.noConfusion).trans (List.append_nil _)
  refine ⟨?_, fun _ => ?_, ?_, fun hop => Bool.noConfusion hop, fun hcl => ?_, Phase.noConfusion,
    fun rest hw => ?_⟩
  · rw [List.append_assoc, List.take_append_drop]
    exact h.kept
  · rw [Phase.pending, if_pos rfl, hpumped]
  · rw [hpumped]
    exact List.prefix_append _ _
  · exact Bool.noConfusion (h.closed hcl).1
  · cases hw
    exact ⟨rfl, hrx⟩

theorem Flow.eof (h : Flow a b true .select y) (hfin : a.fin = true) (hrx : a.rx = []) :
    Flow a b false (.flushing y) y :=
  ⟨h.kept, fun _ => h.pumped Phase.noConfusion, h.inOrder, fun _ => ⟨hfin, hrx, Or.inr rfl⟩,
    fun hcl => Bool.noConfusion (h.closed hcl).1, fun _ => rfl, fun _ hw => Phase.noConfusion hw⟩

theorem Flow.write {rest rest' : List UInt8} (h : Flow a b op (.writing y (rest ++ rest')) y)
    (hphase : phase = .select ∧ rest' = [] ∨ phase = .writing y rest' ∧ rest' ≠ []) :
    Flow a { b with tx := b.tx ++ rest } op phase y := by
  have hop : op = true := (h.writing _ rfl).1
  have hpumped : a.taken = b.written ++ (rest ++ rest') := by
    rw [h.pumped Phase.noConfusion, Phase.pending, if_pos rfl]
  have hwritten : ({ b with tx := b.tx ++ rest } : Socket).written = b.written ++ rest :=
    (List.append_assoc _ _ _).symm
  refine ⟨h.kept, fun _ => ?_, ?_, fun hcl => ?_, fun hcl => ?_, fun hf => ?_, fun r hw => ?_⟩
  · rw [hwritten, hpumped]
    rcases hphase with ⟨rfl, rfl⟩ | ⟨rfl, -⟩
    · rw [List.append_nil]
      exact (List.append_nil _).symm
    · rw [Phase.pending, if_pos rfl, List.append_assoc]
  · rw [hwritten, hpumped, ← List.append_assoc]
    exact List.prefix_append _ _
  · rw [hop] at hcl
    cases hcl
  · have hclosed := (h.closed hcl).1
    rw [hop] at hclosed
    cases hclosed
  · rcases hphase with ⟨rfl, -⟩ | ⟨rfl, -⟩ <;> cases hf
  · rcases hphase with ⟨rfl, -⟩ | ⟨rfl, hne⟩
    · cases hw
    · cases hw
      exact ⟨hop, hne⟩

theorem Flow.close (h : Flow a b op (.flushing y) y) (hflushed : b.tx = [] ∨ b.down = true)
    (hphase : phase = .select ∨ phase = .left) : Flow a { b with closed := true } op phase y := by
  have hpumped : a.taken = b.written := (h.pumped Phase.noConfusion).trans (List.append_nil _)
  have hpending : phase.pending y = [] := by
    rcases hphase with rfl | rfl
    · rfl
    · rfl
  refine ⟨h.kept, fun _ => ?_, h.inOrder, fun hop => ?_, fun _ => ⟨h.flushing rfl, hpumped.symm, hflushed⟩,
    fun hf => ?_, fun rest hw => ?_⟩
  · rw [hpending, List.append_nil]
    exact hpumped
  · exact ⟨(h.ended hop).1, (h.ended hop).2.1, Or.inl rfl⟩
  · rcases hphase with rfl | rfl <;> cases hf
  · rcases hphase with rfl | rfl <;> cases hw

theorem read_cases {r : ReadResult} (h : a.read n = some (r, b)) :
    (∃ k, a.rx.take k ≠ [] ∧ r = .data (a.rx.take k) ∧
      b = { a with rx := a.rx.drop k, taken := a.taken ++ a.rx.take k }) ∨
    (a.fin = true ∧ a.rx = [] ∧ r = .eof ∧ b = a) ∨
    (a.down = true ∧ a.fin = false ∧ a.rx = [] ∧ r = .error ∧ b = a) := by
  unfold Socket.read at h
  split_ifs at h with hrx hfin hdown
  · cases h
    refine Or.inl ⟨min pumpBuf (n + 1), ?_, rfl, rfl⟩
    rw [Ne, List.take_eq_nil_iff, not_or]
    exact ⟨Nat.ne_of_gt (Nat.lt_min.mpr ⟨by decide, Nat.succ_pos n⟩), hrx⟩
  · cases h
    exact Or.inr (Or.inl ⟨hfin, not_not.mp hrx, rfl, rfl⟩)
  · cases h
    exact Or.inr (Or.inr ⟨hdown, eq_false_of_ne_true hfin, not_not.mp hrx, rfl, rfl⟩)

theorem selectReads_cases {r : ReadResult} (h : selectReads s n = some (x, r, a)) :
    s.isOpen x = true ∧ (s.sock x).read n = some (r, a) := by
  have hside : ∀ y, readSide s n y = some (x, r, a) →
      s.isOpen x = true ∧ (s.sock x).read n = some (r, a) := by
    intro y hy
    rw [readSide] at hy
    split_ifs at hy with hopen
    obtain ⟨r', hr', heq⟩ := Option.map_eq_some_iff.mp hy
    cases heq
    exact ⟨hopen, hr'⟩
  rw [selectReads, Option.orElse_eq_or, Option.or_eq_some_iff] at h
  rcases h with h | ⟨-, h⟩
  · exact hside _ h
  · exact hside _ h

/-- A step of the task that changes the socket of one side and the phase. -/
theorem inv_setSock {c : Socket} {isOpen : Side → Bool} (x : Side)
    (hfrom : Flow c (s.sock x.other) (isOpen x) phase x.other)
    (hto : Flow (s.sock x.other) c (isOpen x.other) phase x)
    (hover : phase = .left → (∀ y, isOpen y = false) ∨ ∃ y, ((s.setSock x c).sock y).down = true) :
    Inv { s.setSock x c with isOpen := isOpen, phase := phase } := by
  refine ⟨(forall_side x).mpr ⟨?_, ?_⟩, hover⟩
  · rw [← setSock_self (s := s) (x := x) (a := c), ← setSock_other (s := s) (x := x) (a := c)] at hfrom
    exact hfrom
  · rw [← setSock_self (s := s) (x := x) (a := c), ← setSock_other (s := s) (x := x) (a := c)] at hto
    rw [other_other]
    exact hto

theorem other_dst (x : Side) (rest : List UInt8) : (Phase.writing x.other rest).dst ≠ some x ∧
    (Phase.flushing x.other).dst ≠ some x :=
  ⟨fun h => other_ne x (Option.some.inj h), fun h => other_ne x (Option.some.inj h)⟩

theorem inv_dispatch (h : Inv s) (hphase : s.phase = .select) {r : ReadResult}
    (hopen : s.isOpen x = true) (hread : (s.sock x).read n = some (r, a)) :
    Inv (dispatch (s.setSock x a) x r) := by
  have hflow := (forall_side x).mp h.flow
  rw [hphase, hopen, other_other] at hflow
  obtain ⟨hfrom, hto⟩ := hflow
  have hselect : Phase.select.dst ≠ some x := (Option.some_ne_none x).symm
  rcases read_cases hread with ⟨k, hne, rfl, rfl⟩ | ⟨hfin, hrx, rfl, rfl⟩ | ⟨hdown, -, -, rfl, rfl⟩
  · refine inv_setSock x ?_ ?_ Phase.noConfusion
    · rw [setSock_isOpen, hopen]
      exact hfrom.read hne
    · exact hto.idle hselect (other_dst x _).1 Phase.noConfusion ⟨rfl, rfl, rfl, rfl⟩ ⟨rfl, rfl, rfl, rfl⟩
  · refine inv_setSock x ?_ ?_ Phase.noConfusion
    · rw [Function.update_self]
      exact hfrom.eof hfin hrx
    · rw [Function.update_of_ne (other_ne x)]
      exact hto.idle hselect (other_dst x []).2 Phase.noConfusion ⟨rfl, rfl, rfl, rfl⟩
        ⟨rfl, rfl, rfl, rfl⟩
  · refine inv_setSock x ?_ ?_ fun _ => Or.inr ⟨x, ?_⟩
    · rw [setSock_isOpen, hopen]
      exact hfrom.left Phase.noConfusion
    · exact hto.left Phase.noConfusion
    · rw [setSock_self]
      exact hdown

theorem loopTop_cases (s : Session) : loopTop s = { s with phase := .select } ∨
    ((∀ x, s.isOpen x = false) ∧ loopTop s = { s with phase := .left }) := by
  unfold loopTop
  split_ifs with h
  · rw [Bool.and_eq_true, Bool.not_eq_true', Bool.not_eq_true'] at h
    exact Or.inr ⟨(forall_side .remote).mpr h, rfl⟩
  · exact Or.inl rfl

theorem write_cases {bytes rest : List UInt8} (h : a.write bytes n = some (rest, b)) :
    ∃ sent, bytes = sent ++ rest ∧ b = { a with tx := a.tx ++ sent } := by
  unfold Socket.write at h
  split_ifs at h
  cases h
  exact ⟨bytes.take n, (List.take_append_drop n bytes).symm, rfl⟩

/-- A write fails on a connection that is down; no side is written that was closed. -/
theorem down_of_write {rest : List UInt8} (h : Flow a b op (.writing y rest) y) (hw : b.write rest n = none) :
    b.down = true := by
  unfold Socket.write at hw
  split_ifs at hw with hfail
  rw [Bool.or_eq_true] at hfail
  refine hfail.resolve_right fun hcl => ?_
  have hopen := (h.writing rest rfl).1
  rw [(h.closed hcl).1] at hopen
  cases hopen

theorem Inv.at (h : Inv s) (y : Side) :
    Flow (s.sock y) (s.sock y.other) (s.isOpen y) s.phase y.other ∧
      Flow (s.sock y.other) (s.sock y) (s.isOpen y.other) s.phase y := by
  have hto := h.flow y.other
  rw [other_other] at hto
  exact ⟨h.flow y, hto⟩

theorem ne_other_of_dst (h : phase.dst = some y) : phase.dst ≠ some y.other := by
  rw [h]
  exact fun heq => other_ne y (Option.some.inj heq).symm

theorem inv_loopTop {c : Socket} (hto : ∀ phase', phase' = .select ∨ phase' = .left →
      (phase' = .left → ∀ x, s.isOpen x = false) → Flow (s.sock y.other) c (s.isOpen y.other) phase' y)
    (hfrom : ∀ phase', phase' = .select ∨ phase' = .left →
      Flow c (s.sock y.other) (s.isOpen y) phase' y.other) :
    Inv (loopTop (s.setSock y c)) := by
  rcases loopTop_cases (s.setSock y c) with heq | ⟨hended, heq⟩
  · rw [heq]
    exact inv_setSock y (hfrom _ (Or.inl rfl)) (hto _ (Or.inl rfl) Phase.noConfusion)
      Phase.noConfusion
  · rw [heq]
    exact inv_setSock y (hfrom _ (Or.inr rfl)) (hto _ (Or.inr rfl) fun _ => hended)
      fun _ => Or.inl hended

theorem inv_writing {rest : List UInt8} (h : Inv s) (hphase : s.phase = .writing y rest) :
    Inv (poll s n) := by
  obtain ⟨hfrom, hto⟩ := h.at y
  rw [hphase] at hfrom hto
  have hidle := ne_other_of_dst (show (Phase.writing y rest).dst = some y from rfl)
  rw [poll, hphase]
  dsimp only
  cases hw : (s.sock y).write rest n with
  | none =>
    have hdown := down_of_write hto hw
    refine ⟨(forall_side y).mpr ⟨hfrom.left Phase.noConfusion, ?_⟩, fun _ => Or.inr ⟨y, hdown⟩⟩
    rw [other_other]
    exact hto.left Phase.noConfusion
  | some r =>
    obtain ⟨rest', sock⟩ := r
    obtain ⟨sent, rfl, rfl⟩ := write_cases hw
    cases rest' with
    | nil =>
      refine inv_loopTop (fun phase' hphase' hended => ?_) fun phase' hphase' => ?_
      · rcases hphase' with rfl | rfl
        · exact hto.write (Or.inl ⟨rfl, rfl⟩)
        · have hopen := (hto.writing _ rfl).1
          rw [hended rfl] at hopen
          cases hopen
      · refine hfrom.idle hidle ?_ Phase.noConfusion ⟨rfl, rfl, rfl, rfl⟩ ⟨rfl, rfl, rfl, rfl⟩
        rcases hphase' with rfl | rfl
        · exact (Option.some_ne_none _).symm
        · exact (Option.some_ne_none _).symm
    | cons c cs =>
      refine inv_setSock y ?_ (hto.write (Or.inr ⟨rfl, List.cons_ne_nil c cs⟩)) Phase.noConfusion
      exact hfrom.idle hidle (ne_other_of_dst rfl) Phase.noConfusion ⟨rfl, rfl, rfl, rfl⟩
        ⟨rfl, rfl, rfl, rfl⟩

theorem inv_flushing (h : Inv s) (hphase : s.phase = .flushing y) : Inv (poll s n) := by
  obtain ⟨hfrom, hto⟩ := h.at y
  rw [hphase] at hfrom hto
  rw [poll, hphase]
  dsimp only
  split_ifs with hflushed
  · rw [Socket.flushed, Bool.or_eq_true, List.isEmpty_iff] at hflushed
    refine inv_loopTop (fun phase' hphase' _ => hto.close hflushed hphase') fun phase' hphase' => ?_
    refine hfrom.idle (ne_other_of_dst rfl) ?_ Phase.noConfusion ⟨rfl, rfl, rfl, rfl⟩
      ⟨rfl, rfl, rfl, rfl⟩
    rcases hphase' with rfl | rfl
    · exact (Option.some_ne_none _).symm
    · exact (Option.some_ne_none _).symm
  · exact h

theorem inv_poll (h : Inv s) (n : ℕ) : Inv (poll s n) := by
  cases hphase : s.phase with
  | select =>
    rw [poll, hphase]
    dsimp only
    split
    · rename_i x r sock hread
      obtain ⟨hopen, hread⟩ := selectReads_cases hread
      exact inv_dispatch h hphase hopen hread
    · exact h
  | writing y rest => exact inv_writing h hphase
  | flushing y => exact inv_flushing h hphase
  | left =>
    rw [poll, hphase]
    exact h

theorem inv_step (h : Inv s) (e : Event) : Inv (step s e) := by
  unfold step
  split_ifs with hover
  · exact h
  · cases e with
    | arrive x bytes => exact inv_outside h x (outside_arrive bytes)
    | fin x => exact inv_outside h x outside_finish
    | reset x => exact inv_outside h x outside_reset
    | transmit x n => exact inv_outside h x (outside_transmit n)
    | poll n => exact inv_poll h n

end Polls

end AtNode.TunnelPump
