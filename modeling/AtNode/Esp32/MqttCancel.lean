import Mathlib.Data.List.Forall2
import AtNode.Lib.Run
import AtNode.Esp32.MqttResume

/-!
# Abandoned receives of the MQTT client

`run_client` waits for a packet, the keepalive timer, a change of the configuration and a publish
request at once, and polls `recv` first. Another branch that wins drops the pending `recv`, and with
it the bytes it has read.

A pending `recv` has read all that arrived. It is kept as the client at the beginning of the call
and the chunks the call has read since.
-/

namespace AtNode.Mqtt.RunClient

open Run
open Mqtt311 (varint_of_lt)

inductive Phase where
  | running
  | ended
  | panicked
  deriving DecidableEq

/-- `coming` is what the broker has sent and has not arrived; `handled` is a history. -/
structure State where
  client : Client
  held : List Bytes
  coming : Bytes
  handled : List (Event × Client)
  phase : Phase

def init (ps : List Packet) (rx : Rx) : State where
  client := Client.new [] rx
  held := []
  coming := stream ps
  handled := []
  phase := .running

/-- The client as the pending call sees it. -/
def State.resumed (s : State) : Client := { s.client with t := s.held ++ s.client.t }

/-- The bytes that have arrived and do not belong to a packet that was handled. -/
def State.arrived (s : State) : Bytes := s.resumed.pending

/-- The branches behind which the loop goes on. -/
inductive Branch where
  | keepalive
  | cfgNone
  | pubReq

inductive Input where
  /-- The next bytes of the broker arrive. -/
  | arrive (n : ℕ)
  | poll
  /-- Another branch is ready; `rx` is what a `recv` that is dropped has left in the buffer. -/
  | other (branch : Branch) (rx : Rx)
  /-- A stop, a change of the MQTT keys, or an error of the transport. -/
  | leave

/-- The task polls its `recv`. -/
def poll (s : State) : State :=
  match recv s.resumed with
  | .ok (ev, c) =>
    { s with
      client := c
      held := []
      handled := s.handled ++ [(ev, c)]
      phase := if ev = .disconnect then .ended else s.phase }
  | .error .io => { s with client := { s.client with t := [] }, held := s.held ++ s.client.t }
  | .error .outOfRange => { s with phase := .panicked }

/-- The `select4` with another branch ready: `recv` is polled first, and dropped if it waits. -/
def select (s : State) (rx : Rx) : State :=
  match recv s.resumed with
  | .error .io => { s with client := { s.client with t := [], rx := rx }, held := [] }
  | _ => poll s

def step (s : State) (i : Input) : State :=
  match s.phase with
  | .running =>
    match i with
    | .arrive n =>
      { s with
        client := { s.client with t := s.client.t ++ [s.coming.take n] }
        coming := s.coming.drop n }
    | .poll => poll s
    | .other _ rx => select s rx
    | .leave => { s with phase := .ended }
  | .ended | .panicked => s

/-- The next packet is handled by the next poll when all of it has arrived. -/
def Prompt (s : State) (rest : List Packet) : Prop :=
  ∀ p rest', rest = p :: rest' → p.encode.length ≤ s.arrived.length →
    ∃ r, (poll s).handled = s.handled ++ [r] ∧ Handles r.1 r.2 p

/-- The packets handled are the first ones the broker sent, the bytes that are not handled are those
of the others, and the next one is handled as soon as it is there. -/
def InStep (ps : List Packet) (s : State) : Prop :=
  s.phase ≠ .panicked ∧ ∃ done rest, ps = done ++ rest ∧
    List.Forall₂ (fun r p => Handles r.1 r.2 p) s.handled done ∧
      (s.phase = .running → s.arrived ++ s.coming = stream rest ∧ Prompt s rest)

/-- When another branch is ready, nothing of the next packet has arrived or all of it has. -/
def Undisturbed (ps : List Packet) (s : State) : Input → Prop
  | .other _ _ => s.phase = .running → ∀ p rest, ps.drop s.handled.length = p :: rest →
      s.arrived = [] ∨ p.encode.length ≤ s.arrived.length
  | _ => True

section Steps

variable {ps : List Packet} {s : State} {rx : Rx}

theorem encode_ne_nil (p : Packet) : p.encode ≠ [] := List.cons_ne_nil _ _

theorem arrived_eq (s : State) : s.arrived = s.held.flatten ++ s.client.pending :=
  List.flatten_append

theorem recv_waits {rest : List Packet} (hfit : ∀ p ∈ rest, Fits p)
    (hbytes : s.arrived ++ s.coming = stream rest)
    (hpart : ∀ p rest', rest = p :: rest' → s.arrived.length < p.encode.length) :
    recv s.resumed = .error .io := by
  cases rest with
  | nil =>
    have hnil : s.arrived = [] := (List.append_eq_nil_iff.mp hbytes).1
    have hp : Fits (.control pingresp) := trivial
    refine recv_part hp ?_ (encode_ne_nil (.control pingresp))
    change s.arrived ++ _ = _
    rw [hnil, List.nil_append]
  | cons p rest =>
    have hlt := hpart p rest rfl
    rw [stream_cons] at hbytes
    obtain ⟨more, hmore⟩ : s.arrived <+: p.encode :=
      List.prefix_of_prefix_length_le ⟨s.coming, hbytes⟩ (List.prefix_append _ _) hlt.le
    refine recv_part (hfit p List.mem_cons_self) hmore ?_
    rintro rfl
    rw [List.append_nil] at hmore
    rw [hmore] at hlt
    exact Nat.lt_irrefl _ hlt

theorem recv_whole {p : Packet} {rest : List Packet} (hp : Fits p)
    (hbytes : s.arrived ++ s.coming = stream (p :: rest))
    (hwhole : p.encode.length ≤ s.arrived.length) :
    ∃ ev c, recv s.resumed = .ok (ev, c) ∧ Handles ev c p ∧
      c.pending ++ s.coming = stream rest := by
  rw [stream_cons] at hbytes
  obtain ⟨more, hmore⟩ : p.encode <+: s.arrived :=
    List.prefix_of_prefix_length_le (List.prefix_append _ _) ⟨s.coming, hbytes⟩ hwhole
  obtain ⟨ev, c, hr, hrest, hh⟩ := recv_handles (c := s.resumed) hmore.symm hp
  refine ⟨ev, c, hr, hh, ?_⟩
  rw [← hmore, List.append_assoc, List.append_cancel_left_eq] at hbytes
  rw [hrest, hbytes]

theorem poll_waits (h : recv s.resumed = .error .io) :
    poll s = { s with client := { s.client with t := [] }, held := s.held ++ s.client.t } := by
  rw [poll, h]

theorem poll_whole {ev : Event} {c : Client} (h : recv s.resumed = .ok (ev, c)) :
    poll s =
      { s with
        client := c
        held := []
        handled := s.handled ++ [(ev, c)]
        phase := if ev = .disconnect then .ended else s.phase } := by
  rw [poll, h]

theorem select_waits (h : recv s.resumed = .error .io) :
    select s rx = { s with client := { s.client with t := [], rx := rx }, held := [] } := by
  rw [select, h]

theorem select_whole {r : Event × Client} (h : recv s.resumed = .ok r) : select s rx = poll s := by
  rw [select, h]

theorem next_cases (s : State) (rest : List Packet) :
    (∃ p rest', rest = p :: rest' ∧ p.encode.length ≤ s.arrived.length) ∨
      ∀ p rest', rest = p :: rest' → s.arrived.length < p.encode.length := by
  by_cases hwhole : ∃ p rest', rest = p :: rest' ∧ p.encode.length ≤ s.arrived.length
  · exact Or.inl hwhole
  · right
    intro p rest' heq
    by_contra hle
    exact hwhole ⟨p, rest', heq, Nat.le_of_not_lt hle⟩

theorem prompt_of_bytes {rest : List Packet} (hfit : ∀ p ∈ rest, Fits p)
    (hbytes : s.arrived ++ s.coming = stream rest) : Prompt s rest := by
  rintro p rest' rfl hwhole
  obtain ⟨ev, c, hr, hh, -⟩ := recv_whole (hfit p List.mem_cons_self) hbytes hwhole
  rw [poll_whole hr]
  exact ⟨(ev, c), rfl, hh⟩

theorem inStep_of_bytes (hfit : ∀ p ∈ ps, Fits p) (hsound : s.phase ≠ .panicked)
    {done rest : List Packet} (heq : ps = done ++ rest)
    (hdone : List.Forall₂ (fun r p => Handles r.1 r.2 p) s.handled done)
    (hbytes : s.phase = .running → s.arrived ++ s.coming = stream rest) : InStep ps s := by
  refine ⟨hsound, done, rest, heq, hdone, fun hs => ⟨hbytes hs, ?_⟩⟩
  subst heq
  exact prompt_of_bytes (fun p hp => hfit p (List.mem_append_right done hp)) (hbytes hs)

theorem inStep_init (hfit : ∀ p ∈ ps, Fits p) (rx : Rx) : InStep ps (init ps rx) :=
  inStep_of_bytes hfit nofun (List.nil_append ps).symm List.Forall₂.nil fun _ => rfl

theorem inStep_poll (hfit : ∀ p ∈ ps, Fits p) (hi : InStep ps s) (hs : s.phase = .running) :
    InStep ps (poll s) := by
  obtain ⟨hsound, done, rest, rfl, hdone, hbytes⟩ := hi
  have hb := (hbytes hs).1
  have hrest : ∀ p ∈ rest, Fits p := fun p hp => hfit p (List.mem_append_right done hp)
  rcases next_cases s rest with ⟨p, rest', rfl, hle⟩ | hpart
  · obtain ⟨ev, c, hr, hh, hc⟩ := recv_whole (hrest p List.mem_cons_self) hb hle
    rw [poll_whole hr]
    refine inStep_of_bytes hfit ?_ (List.append_assoc done [p] rest').symm ?_ fun _ => hc
    · dsimp only
      split
      · exact nofun
      · exact hsound
    · exact List.rel_append hdone (List.Forall₂.cons hh List.Forall₂.nil)
  · rw [poll_waits (recv_waits hrest hb hpart)]
    refine inStep_of_bytes hfit hsound rfl hdone fun _ => ?_
    rw [← hb, arrived_eq, arrived_eq, List.flatten_append]
    exact congrArg (· ++ s.coming) (List.append_nil _)

/-- Another branch keeps the loop in step if and only if the next packet is not cut. -/
theorem inStep_select (hfit : ∀ p ∈ ps, Fits p) (hi : InStep ps s) (hs : s.phase = .running) :
    InStep ps (select s rx) ↔ ∀ p rest, ps.drop s.handled.length = p :: rest →
      s.arrived = [] ∨ p.encode.length ≤ s.arrived.length := by
  obtain ⟨hsound, done, rest, rfl, hdone, hbytes⟩ := id hi
  have hb := (hbytes hs).1
  have hlen : s.handled.length = done.length := hdone.length_eq
  have hrest : ∀ p ∈ rest, Fits p := fun p hp => hfit p (List.mem_append_right done hp)
  rw [hlen, List.drop_left]
  rcases next_cases s rest with ⟨p, rest', rfl, hle⟩ | hpart
  · obtain ⟨ev, c, hr, -, -⟩ := recv_whole (hrest p List.mem_cons_self) hb hle
    rw [select_whole hr]
    refine iff_of_true (inStep_poll hfit hi hs) ?_
    intro q rest'' heq
    cases heq
    exact Or.inr hle
  · rw [select_waits (recv_waits hrest hb hpart)]
    constructor
    · rintro ⟨-, done', rest', happ, hdone', hbytes'⟩ p rest'' heq
      left
      have hlen' : done.length = done'.length := hlen.symm.trans hdone'.length_eq
      obtain ⟨-, rfl⟩ := List.append_inj happ hlen'
      have hb' : s.coming = stream rest := (hbytes' hs).1
      rw [← hb'] at hb
      exact List.append_left_eq_self.mp hb
    · intro h
      have hnil : s.arrived = [] := by
        cases rest with
        | nil => exact (List.append_eq_nil_iff.mp hb).1
        | cons p rest' =>
          rcases h p rest' rfl with hnil | hle
          · exact hnil
          · exact absurd hle (Nat.not_le_of_lt (hpart p rest' rfl))
      refine inStep_of_bytes hfit hsound rfl hdone fun _ => ?_
      rw [hnil] at hb
      exact hb

theorem inStep_arrive (hfit : ∀ p ∈ ps, Fits p) (hi : InStep ps s) (n : ℕ) :
    InStep ps
      { s with
        client := { s.client with t := s.client.t ++ [s.coming.take n] }
        coming := s.coming.drop n } := by
  obtain ⟨hsound, done, rest, heq, hdone, hbytes⟩ := hi
  refine inStep_of_bytes hfit hsound heq hdone fun hs => ?_
  rw [← (hbytes hs).1, arrived_eq, arrived_eq]
  dsimp only [Client.pending]
  rw [List.flatten_append, List.flatten_singleton]
  simp only [List.append_assoc, List.take_append_drop]

theorem inStep_step (hfit : ∀ p ∈ ps, Fits p) (hi : InStep ps s) (i : Input) :
    InStep ps (step s i) ↔ Undisturbed ps s i := by
  unfold step
  cases hs : s.phase with
  | running =>
    dsimp only
    cases i with
    | arrive n => exact iff_of_true (hs ▸ inStep_arrive hfit hi n) trivial
    | poll => exact iff_of_true (inStep_poll hfit hi hs) trivial
    | other branch rx =>
      refine (inStep_select hfit hi hs).trans ?_
      exact ⟨fun h _ => h, fun h => h hs⟩
    | leave =>
      obtain ⟨-, done, rest, heq, hdone, -⟩ := hi
      exact iff_of_true ⟨nofun, done, rest, heq, hdone, nofun⟩ trivial
  | ended | panicked =>
    refine iff_of_true hi ?_
    cases i with
    | other branch rx => exact fun h => absurd (hs.symm.trans h) (by decide)
    | arrive n | poll | leave => trivial

end Steps

/-- Over every stream of packets that fit and every order of arrivals, polls and other branches, the
packets handled are those the broker sent if and only if no branch cuts a packet. -/
theorem receive_survives_iff {ps : List Packet} (hfit : ∀ p ∈ ps, Fits p) (rx : Rx)
    (is : List Input) :
    Always step (InStep ps) (init ps rx) is ↔ Along step (Undisturbed ps) (init ps rx) is := by
  refine always_iff_along (I := InStep ps) (fun _ hi => hi) ?_ ?_ (inStep_init hfit rx)
  · intro s i hi hP
    exact (inStep_step hfit hi i).mpr hP
  · intro s i hi hP hs
    exact hP ((inStep_step hfit hi i).mp hs)

section Cut

theorem pingresp_fits : Fits (.control pingresp) := trivial

/-- A ping response arrives whole, with another branch before it. -/
theorem receive_survives_keepalive :
    Always step (InStep [.control pingresp]) (init [.control pingresp] zeroRx)
      [.other .keepalive zeroRx, .arrive 2, .poll] := by
  apply (receive_survives_iff _ zeroRx _).mpr
  · exact ⟨fun _ _ _ _ => Or.inl rfl, trivial, trivial, trivial⟩
  · intro p hp
    rw [List.mem_singleton.mp hp]
    exact pingresp_fits

/-- Of a PUBLISH of seven bytes the first two arrive before the keepalive timer fires. -/
theorem keepalive_cuts_publish :
    ¬ Always step (InStep [.publish shortPublish]) (init [.publish shortPublish] zeroRx)
      [.arrive 2, .other .keepalive zeroRx] := by
  intro h
  have hfit : ∀ p ∈ [Packet.publish shortPublish], Fits p := by
    intro p hp
    rw [List.mem_singleton.mp hp]
    exact ⟨rfl, by decide⟩
  have hstart := inStep_init hfit zeroRx
  have harrived := (inStep_step hfit hstart (.arrive 2)).mpr trivial
  have hcut := (inStep_step hfit harrived (.other .keepalive zeroRx)).mp h.final rfl _ _ rfl
  have henc : (Packet.publish shortPublish).encode.length = 7 := by
    rw [Packet.encode, varint_of_lt (by decide)]
    rfl
  have hlen : (step (init [.publish shortPublish] zeroRx) (.arrive 2)).arrived.length = 2 := by
    change (((stream [.publish shortPublish]).take 2) ++ []).length = 2
    rw [List.append_nil, List.length_take, stream_cons, List.length_append, henc]
    rfl
  rcases hcut with hnil | hle
  · rw [hnil] at hlen
    cases hlen
  · rw [hlen, henc] at hle
    exact absurd hle (by decide)

end Cut

end AtNode.Mqtt.RunClient
