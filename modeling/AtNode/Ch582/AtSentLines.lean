import Mathlib.Data.List.DropRight
import AtNode.Ch582.AtIsolation

/-!
# Executed commands and sent lines

A command should be one of the lines its channel sent, without the carriage returns and the line
feed at its end. Four things in front of the command table can change a line: bytes that find a
full receive ring are dropped, the line feed among them; a line that does not fit `at_line` is cut;
the string functions stop at a zero byte; the CDC channel leaves out every carriage return. The
result is executed in each case, and a line without a token executes what an earlier line left in
`at_argv`.

A line is intact when the last three do not apply to it, which is exactly when it is executed as it
was sent.
-/

namespace AtNode.AtParser

open Run

/-- The line is the segment without carriage returns at its end. -/
def SentAs (seg line : List UInt8) : Prop := ∃ n, seg = line ++ List.replicate n cr

/-- Every executed command is a line sent on its channel, and its own tokens say what it does. -/
def ExecutedAsSent (s : State) : Prop :=
  ∀ k ∈ s.parser.executed,
    (∃ seg ∈ lines lf (s.arrived k.channel), SentAs seg k.line) ∧ k.Own

def lineText (seg : List UInt8) : List UInt8 := seg.rdropWhile (· = cr)

/-- The line fits the buffer, has no zero byte, and on CDC its carriage returns end it. -/
def Intact (c : Channel) (seg : List UInt8) : Prop :=
  (lineText seg).length ≤ atLineMax - 1 ∧ 0 ∉ seg ∧ (c = .cdc → cr ∉ lineText seg)

instance (c : Channel) (seg : List UInt8) : Decidable (Intact c seg) :=
  inferInstanceAs (Decidable (_ ∧ _ ∧ _))

def blank : List UInt8 → Bool
  | [] => true
  | [a] => a = 0 || a = cr
  | a :: b :: _ => a = 0 || (a = cr && b = 0)

/-- What an event brings in on a channel. -/
def incoming : Event → Channel → List UInt8
  | .poll rbr, .uart => rbr
  | .cdcOut pkt, .cdc => pkt
  | _, _ => []

/-- Every line that has been sent after the event is intact or ignored. -/
def IntactLines (s : State) (e : Event) : Prop :=
  ∀ c, ∀ seg ∈ lines lf (s.arrived c ++ incoming e c), Intact c seg ∨ blank (segmentText c seg)

section Lines

variable {c : Channel} {seg t line : List UInt8}

theorem SentAs.refl (seg : List UInt8) : SentAs seg seg := ⟨0, by simp⟩

theorem SentAs.trans (h : SentAs seg t) (h' : SentAs t line) : SentAs seg line := by
  obtain ⟨n, rfl⟩ := h
  obtain ⟨m, rfl⟩ := h'
  exact ⟨m + n, by rw [List.append_assoc, List.replicate_append_replicate]⟩

theorem sentAs_lineText (seg : List UInt8) : SentAs seg (lineText seg) := by
  induction seg using List.reverseRecOn with
  | nil => exact ⟨0, rfl⟩
  | append_singleton seg b ih =>
    by_cases hb : b = cr
    · have hdrop : lineText (seg ++ [b]) = lineText seg :=
        List.rdropWhile_concat_pos _ _ _ (by simpa using hb)
      rw [hdrop, hb]
      exact SentAs.trans ⟨1, rfl⟩ ih
    · have hdrop : lineText (seg ++ [b]) = seg ++ [b] :=
        List.rdropWhile_concat_neg _ _ _ (by simpa using hb)
      rw [hdrop]
      exact SentAs.refl _

theorem SentAs.lineText_eq (h : SentAs seg line) : lineText seg = lineText line := by
  obtain ⟨n, rfl⟩ := h
  induction n with
  | zero => simp
  | succ n ih =>
    rw [List.replicate_succ', ← List.append_assoc]
    exact (List.rdropWhile_concat_pos _ _ _ (by simp)).trans ih

theorem lineText_prefix (seg : List UInt8) : lineText seg <+: seg := List.rdropWhile_prefix _ _

theorem cString_eq_self (h : 0 ∉ t) : cString t = t := by
  rw [cString, List.takeWhile_eq_self_iff]
  intro b hb
  have hne : b ≠ 0 := fun he => h (he ▸ hb)
  simpa using hne

theorem zero_notMem_cString (t : List UInt8) : 0 ∉ cString t := by
  intro h
  have hne := List.mem_takeWhile_imp h
  simp at hne

/-- The head of `at_process_line` takes one carriage return from the end of the C string. -/
theorem commandLine_eq_some (h : commandLine t = some line) :
    line ≠ [] ∧ SentAs (cString t) line := by
  unfold commandLine at h
  dsimp only at h
  split_ifs at h with hcr hnil hnil
  · cases h
    refine ⟨hnil, 1, ?_⟩
    exact (List.dropLast_append_getLast? cr hcr).symm
  · cases h
    exact ⟨hnil, SentAs.refl _⟩

theorem commandLine_eq_none_of_blank (h : blank t) : commandLine t = none := by
  match t with
  | [] => rfl
  | [a] =>
    have ha : a = 0 ∨ a = cr := by simpa [blank] using h
    rcases ha with rfl | rfl <;> decide
  | a :: b :: t =>
    have ha : a = 0 ∨ (a = cr ∧ b = 0) := by simpa [blank] using h
    rcases ha with rfl | ⟨rfl, rfl⟩
    · simp [commandLine, cString]
    · have hs : cString (cr :: 0 :: t) = [cr] := rfl
      simp [commandLine, hs]

theorem blank_of_commandLine_eq_none (h : commandLine t = none) : blank t := by
  unfold commandLine at h
  dsimp only at h
  match t with
  | [] => rfl
  | [a] =>
    by_cases ha : a = 0
    · simp [blank, ha]
    · by_cases hcr : a = cr
      · simp [blank, hcr]
      · simp [cString, ha, hcr] at h
  | a :: b :: t =>
    by_cases ha : a = 0
    · simp [blank, ha]
    · by_cases hb : b = 0
      · by_cases hcr : a = cr
        · simp [blank, hcr, hb]
        · simp [cString, ha, hb, hcr] at h
      · simp [cString, ha, hb] at h
        split_ifs at h

/-- An intact line goes into the buffer whole. -/
theorem Intact.sentAs (h : Intact c seg) :
    SentAs seg ((segmentText c seg).take (atLineMax - 1)) := by
  obtain ⟨n, hn⟩ := sentAs_lineText seg
  obtain ⟨hlen, -, hcr⟩ := h
  cases c with
  | uart =>
    -- the cut leaves the text and some of the carriage returns
    refine ⟨n - (atLineMax - 1 - (lineText seg).length), ?_⟩
    have htake : seg.take (atLineMax - 1) =
        lineText seg ++ List.replicate (min (atLineMax - 1 - (lineText seg).length) n) cr := by
      conv_lhs => rw [hn]
      rw [List.take_append, List.take_of_length_le hlen, List.take_replicate]
    rw [segmentText, htake, List.append_assoc, List.replicate_append_replicate]
    have hsum : min (atLineMax - 1 - (lineText seg).length) n +
        (n - (atLineMax - 1 - (lineText seg).length)) = n := by omega
    rw [hsum]
    exact hn
  | cdc =>
    have htext : segmentText .cdc seg = lineText seg := by
      rw [segmentText]
      conv_lhs => rw [hn]
      rw [List.filter_append, List.filter_eq_self.mpr, List.filter_eq_nil_iff.mpr,
        List.append_nil]
      · intro b hb
        simp [List.eq_of_mem_replicate hb]
      · intro b hb
        have hne : b ≠ cr := fun he => hcr rfl (he ▸ hb)
        simpa using hne
    rw [htext, List.take_of_length_le hlen]
    exact ⟨n, hn⟩

theorem Intact.zero_notMem (h : Intact c seg) :
    0 ∉ (segmentText c seg).take (atLineMax - 1) := by
  intro h0
  obtain ⟨n, hn⟩ := h.sentAs
  apply h.2.1
  rw [hn]
  exact List.mem_append_left _ h0

theorem cr_notMem_cString_cdc (seg : List UInt8) (n : ℕ) :
    cr ∉ cString ((segmentText .cdc seg).take n) := by
  intro h
  have hmem := List.mem_of_mem_take ((List.takeWhile_sublist _).subset h)
  simp [segmentText] at hmem

theorem blank_take (t : List UInt8) : blank (t.take (atLineMax - 1)) = blank t := by
  match t with
  | [] => rfl
  | [_] => rfl
  | _ :: _ :: _ => rfl

/-- A line is ignored or executed as it was sent exactly when it is blank or intact. -/
theorem line_sentAs_iff (c : Channel) (seg : List UInt8) :
    (∀ line, commandLine ((segmentText c seg).take (atLineMax - 1)) = some line →
        SentAs seg line) ↔ Intact c seg ∨ blank (segmentText c seg) := by
  constructor
  · intro h
    cases hcmd : commandLine ((segmentText c seg).take (atLineMax - 1)) with
    | none =>
      right
      rw [← blank_take]
      exact blank_of_commandLine_eq_none hcmd
    | some line =>
      left
      have hsent := h line hcmd
      obtain ⟨-, hcstr⟩ := commandLine_eq_some hcmd
      have hfront : lineText line <+: cString ((segmentText c seg).take (atLineMax - 1)) :=
        hcstr.lineText_eq ▸ lineText_prefix _
      have htake : cString ((segmentText c seg).take (atLineMax - 1)) <+:
          (segmentText c seg).take (atLineMax - 1) := List.takeWhile_prefix _
      refine ⟨?_, ?_, ?_⟩
      · rw [hsent.lineText_eq]
        exact (hfront.trans htake).length_le.trans (List.length_take_le _ _)
      · -- no zero byte is left in the executed line, so the segment has none
        obtain ⟨n, hn⟩ := hsent
        obtain ⟨m, hm⟩ := hcstr
        rw [hn]
        intro h0
        rcases List.mem_append.mp h0 with h0 | h0
        · apply zero_notMem_cString ((segmentText c seg).take (atLineMax - 1))
          rw [hm]
          exact List.mem_append_left _ h0
        · exact absurd (List.eq_of_mem_replicate h0) (by decide)
      · rintro rfl hmem
        rw [hsent.lineText_eq] at hmem
        exact cr_notMem_cString_cdc seg _ (hfront.subset hmem)
  · rintro (hi | hb) line hcmd
    · have hcstr := (commandLine_eq_some hcmd).2
      rw [cString_eq_self hi.zero_notMem] at hcstr
      exact hi.sentAs.trans hcstr
    · rw [commandLine_eq_none_of_blank (by rwa [blank_take])] at hcmd
      cases hcmd

end Lines

section Runs

/-- The lines sent so far are intact or ignored. -/
def SentIntact (s : State) : Prop :=
  ∀ c, ∀ seg ∈ lines lf (s.arrived c), Intact c seg ∨ blank (segmentText c seg)

theorem arrived_step (s : State) (e : Event) (c : Channel) :
    (step s e).arrived c = s.arrived c ++ incoming e c := by
  cases e with
  | poll rbr => cases c <;> simp [step, incoming]
  | cdcOut pkt => cases c <;> simp [step, incoming]

theorem sentIntact_step (s : State) (e : Event) (h : IntactLines s e) : SentIntact (step s e) := by
  intro c seg hseg
  rw [arrived_step] at hseg
  exact h c seg hseg

theorem sentIntact_boot : SentIntact boot := by
  intro c seg hseg
  simp [boot] at hseg

theorem executedAsSent_of_inv {s : State} (hi : ParserInv s.parser) (hd : Delivered s)
    (hs : SentIntact s) : ExecutedAsSent s := by
  intro k hk
  have hmem : k.line ∈ executedOn k.channel s.parser.executed :=
    List.mem_map_of_mem (List.mem_filter.mpr ⟨hk, by simp⟩)
  rw [hi.isolated.lines k.channel] at hmem
  obtain ⟨seg, hseg, hcmd⟩ := List.mem_filterMap.mp hmem
  have hsent : seg ∈ lines lf (s.arrived k.channel) := by
    rw [← hd k.channel]
    exact (prefix_lines _ _).subset hseg
  exact ⟨⟨seg, hsent, (line_sentAs_iff k.channel seg).mpr (hs _ seg hsent) k.line hcmd⟩,
    hi.isolated.own k hk⟩

/-- In every run in which no byte is dropped, every byte is clean and every line sent is intact or
ignored, every executed command is a line its channel sent. -/
theorem executed_lines_are_sent (es : List Event)
    (h : Along step (fun s e => CleanPoll s e ∧ NoOverrun s e ∧ IntactLines s e) boot es) :
    Always step ExecutedAsSent boot es := by
  have hinv : Always step (fun s => ParserInv s.parser ∧ Delivered s ∧ SentIntact s) boot es :=
    always_of_along
      (fun s e hi hp => ⟨parserInv_step s e hi.1 hp.1, delivered_step s e hi.2.1 hp.2.1,
        sentIntact_step s e hp.2.2⟩)
      ⟨parserInv_boot, delivered_boot, sentIntact_boot⟩ h
  exact hinv.mono fun s hs => executedAsSent_of_inv hs.1 hs.2.1 hs.2.2

instance (s : State) : (e : Event) → Decidable (NoOverrun s e)
  | .poll rbr => inferInstanceAs (Decidable (s.atRx.count + rbr.length < atRxBufSize))
  | .cdcOut pkt => inferInstanceAs (Decidable (s.cdcRx.count + pkt.length < cdcRxBufSize))

/-- `AT` over UART and `A` over CDC, both with a carriage return and a line feed. -/
theorem executed_lines_are_sent_two_channels :
    Always step ExecutedAsSent boot
      [.poll [0x41, 0x54, cr, lf], .cdcOut [0x41, cr, lf], .poll []] := by
  apply executed_lines_are_sent
  refine ⟨⟨?_, by decide, ?_⟩, ⟨trivial, by decide, ?_⟩, ⟨?_, by decide, ?_⟩, trivial⟩
  · refine ⟨?_, ?_, ?_, ?_, trivial⟩ <;> decide
  · intro c
    cases c <;> decide
  · intro c
    cases c <;> decide
  · refine ⟨?_, ?_, ?_, trivial⟩ <;> decide
  · intro c
    cases c <;> decide

instance (seg line : List UInt8) : Decidable (SentAs seg line) :=
  decidable_of_iff (seg = line ++ List.replicate (seg.length - line.length) cr)
    ⟨fun h => ⟨_, h⟩, fun ⟨n, hn⟩ => by simp [hn]⟩

/-- The host sends a line of 256 bytes in one go; the last byte and the line feed find the receive
ring full. The next line is `B`, and the command that is executed is 255 bytes of the first line
with `B` behind them. -/
theorem full_ring_splices_lines :
    ¬ ∀ es : List Event, Always step ExecutedAsSent boot es := by
  intro hall
  have h := (hall (List.replicate 4 (.cdcOut (List.replicate 64 0x41)) ++ [.cdcOut [lf]] ++
    List.replicate 4 (.poll []) ++ [.cdcOut [0x42, lf], .poll []])).final
  have hsent := fun k hk => (h k hk).1
  revert hsent
  decide +kernel

end Runs

end AtNode.AtParser
