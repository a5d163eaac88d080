import AtNode.Ch582.AtParser
import AtNode.Ch582.CurrentLine

/-!
# Isolation of the two AT channels

The lines of a channel are its own bytes cut at line feeds, each cut to what the line buffer holds
and freed of carriage returns the way the channel does it. A byte is clean when the other channel
has no unfinished line at that moment, and the line that it ends, if it ends one, has a name and all
the arguments that are read. If every byte of a run is clean, the commands executed for a channel are
the lines of that channel alone, and each does what its own tokens make it do: the shared buffer is
used by one channel at a time, and nothing is read that an earlier line left in `at_argv`.
-/

namespace AtNode.AtParser

open AtCmds (ArgStore Chip Node dispatch cmdTable received ShortKeyCfg processHead_eq strAt_prepared
  dispatch_confined arg_of_line)

/-- The bytes of a segment the loop body of the channel puts into `at_line`. -/
def segmentText : Channel → List UInt8 → List UInt8
  | .uart, seg => seg
  | .cdc, seg => seg.filter (· ≠ cr)

/-- The command lines one channel's stream splits into, with nothing else on the line. -/
def linesOf (c : Channel) (bs : List UInt8) : List (List UInt8) :=
  (lines lf bs).filterMap fun seg => commandLine ((segmentText c seg).take (atLineMax - 1))

def ownBytes (c : Channel) (bs : List (Channel × UInt8)) : List UInt8 :=
  (bs.filter fun b => b.1 = c).map Prod.snd

def executedOn (c : Channel) (cs : List Command) : List (List UInt8) :=
  (cs.filter fun k => k.channel = c).map Command.line

/-- What a channel has sent of a line it has not finished. -/
def partialLine (c : Channel) (p : Parser) : List UInt8 :=
  segmentText c (unfinished lf (ownBytes c p.taken))

/-- The search of the table and the handlers do what they would do with the tokens of the line and
nothing else in `at_argv`, whatever the node is. -/
def Command.Own (k : Command) : Prop :=
  ∀ (n : ℕ) (σ : Type) (C : Chip n σ) (w : Node n σ),
    (dispatch C k.argc (cmdTable C.build)).run k.args.arg w =
      (dispatch C (tokenize k.line).length (cmdTable C.build)).run (fun i => (tokenize k.line)[i]?) w

structure Isolated (p : Parser) : Prop where
  lines : ∀ c, executedOn c p.executed = linesOf c (ownBytes c p.taken)
  own : ∀ k ∈ p.executed, k.Own

/-- The line has a name, and is not an `AT+KEY_CFG` line without its third argument. -/
def Complete (line : List UInt8) : Prop := tokenize line ≠ [] ∧ ¬ ShortKeyCfg (tokenize line)

/-- Carriage returns of the CDC channel are skipped; every other byte needs a free line buffer, and a
line feed a complete line in front of it, if it is not empty. -/
def CleanByte (p : Parser) (b : Channel × UInt8) : Prop :=
  (b ≠ (.cdc, cr) → partialLine b.1.other p = []) ∧
    (b.2 = lf → ∀ line ∈ commandLine ((partialLine b.1 p).take (atLineMax - 1)), Complete line)

instance (line : List UInt8) : Decidable (Complete line) := inferInstanceAs (Decidable (_ ∧ _))

instance (p : Parser) (b : Channel × UInt8) : Decidable (CleanByte p b) :=
  inferInstanceAs (Decidable (_ ∧ _))

def CleanPoll (s : State) : Event → Prop
  | .poll rbr => Run.Along feed CleanByte s.parser (polled s rbr)
  | .cdcOut _ => True

structure ParserInv (p : Parser) : Prop where
  isolated : Isolated p
  one_writer : partialLine .uart p = [] ∨ partialLine .cdc p = []
  line_eq : p.atLine = (partialLine .uart p ++ partialLine .cdc p).take (atLineMax - 1)

theorem appendChar_take (l : List UInt8) (ch : UInt8) :
    appendChar (l.take (atLineMax - 1)) ch = (l ++ [ch]).take (atLineMax - 1) := by
  unfold appendChar
  rcases Nat.lt_or_ge l.length (atLineMax - 1) with h | h
  · rw [List.take_of_length_le h.le, if_pos h, List.take_of_length_le]
    simpa using h
  · rw [if_neg (by simpa using h), List.take_append_of_le_length h]

theorem ownBytes_snoc_self (c : Channel) (bs : List (Channel × UInt8)) (ch : UInt8) :
    ownBytes c (bs ++ [(c, ch)]) = ownBytes c bs ++ [ch] := by
  simp [ownBytes]

theorem ownBytes_snoc_other (c : Channel) (bs : List (Channel × UInt8)) (ch : UInt8) :
    ownBytes c.other (bs ++ [(c, ch)]) = ownBytes c.other bs := by
  cases c <;> simp [ownBytes, Channel.other]

theorem segmentText_snoc (c : Channel) (seg : List UInt8) {ch : UInt8} (h : (c, ch) ≠ (.cdc, cr)) :
    segmentText c (seg ++ [ch]) = segmentText c seg ++ [ch] := by
  cases c with
  | uart => rfl
  | cdc =>
    have hne : ch ≠ cr := fun he => h (by rw [he])
    simp [segmentText, hne]

theorem linesOf_snoc_lf (c : Channel) (bs : List UInt8) :
    linesOf c (bs ++ [lf]) = linesOf c bs ++
      (commandLine ((segmentText c (unfinished lf bs)).take (atLineMax - 1))).toList := by
  simp [linesOf, List.filterMap_append, List.filterMap_cons]
  cases commandLine ((segmentText c (unfinished lf bs)).take 1023) <;> rfl

theorem linesOf_snoc_ne (c : Channel) (bs : List UInt8) {ch : UInt8} (h : ch ≠ lf) :
    linesOf c (bs ++ [ch]) = linesOf c bs := by
  rw [linesOf, lines_snoc_ne bs h, linesOf]

theorem atProcessLine_eq (p : Parser) (buf : List UInt8) :
    (commandLine (received buf) = none ∧ atProcessLine p buf = { p with args := p.args.after buf }) ∨
      ∃ line, commandLine (received buf) = some line ∧ atProcessLine p buf =
        { p with
          args := p.args.after buf
          executed := p.executed ++
            [⟨p.atChannel, line, (tokenize line).length, p.args.after buf⟩] } := by
  rcases processHead_eq p.args.line buf with ⟨hline, hnone⟩ | ⟨line, ps, hline, hsome, htokens⟩
  · refine Or.inl ⟨hline, ?_⟩
    simp only [atProcessLine, hnone]
  · have htext := strAt_prepared buf p.args.line
    rw [hline, Option.getD_some] at htext
    refine Or.inr ⟨line, hline, ?_⟩
    simp only [atProcessLine, hsome, htext, htokens.length_eq]

theorem assemble_lf_eq (p : Parser) (c : Channel) : ∃ q : Parser,
    assemble p c lf = atProcessLine q p.atLine ∧ q.atChannel = c ∧ q.atLine = [] ∧
      q.executed = p.executed ∧ q.taken = p.taken := by
  cases c with
  | uart =>
    refine ⟨{ p with atChannel := .uart, atLine := [] }, ?_, rfl, rfl, rfl, rfl⟩
    simp only [assemble, if_true]
  | cdc =>
    refine ⟨{ p with
      atChannel := .cdc
      atLine := []
      echoed := p.echoed ++ [cString p.atLine, [cr, lf]] }, ?_, rfl, rfl, rfl, rfl⟩
    simp only [assemble, if_true]

/-- What a line feed does: the buffer goes to the channel's command line and is emptied. -/
theorem assemble_lf (p : Parser) (c : Channel) :
    executedOn c (assemble p c lf).executed =
        executedOn c p.executed ++ (commandLine (received p.atLine)).toList ∧
      executedOn c.other (assemble p c lf).executed = executedOn c.other p.executed ∧
      (assemble p c lf).atLine = [] ∧ (assemble p c lf).taken = p.taken := by
  obtain ⟨q, hq, hchannel, hline, hexecuted, htaken⟩ := assemble_lf_eq p c
  rw [hq, ← hexecuted, ← htaken, ← hline]
  rcases atProcessLine_eq q p.atLine with ⟨hnone, heq⟩ | ⟨line, hsome, heq⟩
  · rw [heq, hnone]
    exact ⟨(List.append_nil _).symm, rfl, rfl, rfl⟩
  · rw [heq, hsome, hchannel]
    cases c <;> simp [executedOn, Channel.other]

theorem own_of_complete {buf line : List UInt8} (h : commandLine (received buf) = some line)
    (hc : Complete line) (c : Channel) (args : ArgStore) :
    (Command.mk c line (tokenize line).length (args.after buf)).Own := by
  intro n σ C w
  apply (dispatch_confined h hc.1 hc.2 args _).run_congr
  exact (arg_of_line h args).2

theorem own_lf {p : Parser} (hp : ∀ k ∈ p.executed, k.Own) (c : Channel)
    (hc : ∀ line ∈ commandLine (received p.atLine), Complete line) :
    ∀ k ∈ (assemble p c lf).executed, k.Own := by
  obtain ⟨q, hq, -, -, hexecuted, -⟩ := assemble_lf_eq p c
  rw [← hexecuted] at hp
  rw [hq]
  rcases atProcessLine_eq q p.atLine with ⟨-, heq⟩ | ⟨line, hsome, heq⟩
  · rw [heq]
    exact hp
  · rw [heq]
    intro k hk
    rcases List.mem_append.mp hk with hk | hk
    · exact hp k hk
    · rw [List.mem_singleton.mp hk]
      exact own_of_complete hsome (hc line hsome) _ _

theorem assemble_char (p : Parser) (c : Channel) {ch : UInt8} (hlf : ch ≠ lf)
    (hcr : (c, ch) ≠ (.cdc, cr)) :
    assemble p c ch = { p with atLine := appendChar p.atLine ch } := by
  cases c with
  | uart => simp only [assemble, if_neg hlf]
  | cdc =>
    have hne : ch ≠ cr := fun he => hcr (by rw [he])
    simp only [assemble, if_neg hlf, if_pos hne]

theorem cr_ne_lf : cr ≠ lf := by decide

theorem assemble_cr (p : Parser) : assemble p .cdc cr = p := by
  simp [assemble, cr_ne_lf]

theorem feed_taken (p : Parser) (b : Channel × UInt8) : (feed p b).taken = p.taken ++ [b] := by
  obtain ⟨c, ch⟩ := b
  by_cases hcr : (c, ch) = (.cdc, cr)
  · obtain ⟨rfl, rfl⟩ := Prod.mk.inj hcr
    simp [feed, assemble_cr]
  · by_cases hlf : ch = lf
    · subst hlf
      simp [feed, (assemble_lf p c).2.2.2]
    · simp [feed, assemble_char p c hlf hcr]

theorem partialLine_feed_other (p : Parser) (c : Channel) (ch : UInt8) :
    partialLine c.other (feed p (c, ch)) = partialLine c.other p := by
  simp only [partialLine, feed_taken, ownBytes_snoc_other]

theorem partialLine_feed_lf (p : Parser) (c : Channel) :
    partialLine c (feed p (c, lf)) = [] := by
  cases c <;> simp [partialLine, feed_taken, ownBytes_snoc_self, segmentText]

theorem partialLine_feed_char (p : Parser) (c : Channel) {ch : UInt8} (hlf : ch ≠ lf)
    (hcr : (c, ch) ≠ (.cdc, cr)) :
    partialLine c (feed p (c, ch)) = partialLine c p ++ [ch] := by
  simp only [partialLine, feed_taken, ownBytes_snoc_self, unfinished_snoc_ne _ hlf,
    segmentText_snoc c _ hcr]

theorem partialLine_feed_cr (p : Parser) :
    partialLine .cdc (feed p (.cdc, cr)) = partialLine .cdc p := by
  simp [partialLine, feed_taken, ownBytes_snoc_self, unfinished_snoc_ne _ cr_ne_lf, segmentText]

theorem forall_channel (c : Channel) {P : Channel → Prop} (h : P c) (h' : P c.other) : ∀ d, P d := by
  intro d
  cases c <;> cases d
  exacts [h, h', h', h]

theorem received_take (l : List UInt8) :
    received (l.take (atLineMax - 1)) = l.take (atLineMax - 1) := by
  rw [received, List.take_take, Nat.min_self]

/-- With the other channel between lines, the shared buffer is the channel's own partial line. -/
theorem ParserInv.atLine_eq {p : Parser} (hi : ParserInv p) {c : Channel}
    (h : partialLine c.other p = []) : p.atLine = (partialLine c p).take (atLineMax - 1) := by
  have hl := hi.line_eq
  cases c with
  | uart => rw [hl, show partialLine .cdc p = [] from h, List.append_nil]
  | cdc => rw [hl, show partialLine .uart p = [] from h, List.nil_append]

theorem parserInv_of_parts {p : Parser} {c : Channel} (hi : Isolated p)
    (ho : partialLine c.other p = [])
    (hl : p.atLine = (partialLine c p).take (atLineMax - 1)) : ParserInv p := by
  cases c with
  | uart =>
    have ho' : partialLine .cdc p = [] := ho
    exact ⟨hi, Or.inr ho', by rw [ho', List.append_nil, hl]⟩
  | cdc =>
    have ho' : partialLine .uart p = [] := ho
    exact ⟨hi, Or.inl ho', by rw [ho', List.nil_append, hl]⟩

theorem parserInv_feed_cr {p : Parser} (hi : ParserInv p) : ParserInv (feed p (.cdc, cr)) := by
  have hcdc := partialLine_feed_cr p
  have huart : partialLine .uart (feed p (.cdc, cr)) = partialLine .uart p :=
    partialLine_feed_other p .cdc cr
  have hexecuted : (feed p (.cdc, cr)).executed = p.executed := by
    simp only [feed, assemble_cr]
  refine ⟨⟨forall_channel .cdc ?_ ?_, hexecuted ▸ hi.isolated.own⟩, ?_, ?_⟩
  · rw [feed_taken, ownBytes_snoc_self, linesOf_snoc_ne _ _ cr_ne_lf, hexecuted]
    exact hi.isolated.lines .cdc
  · rw [feed_taken, ownBytes_snoc_other, hexecuted]
    exact hi.isolated.lines .uart
  · rw [hcdc, huart]
    exact hi.one_writer
  · rw [hcdc, huart]
    exact hi.line_eq

theorem parserInv_feed_char {p : Parser} (hi : ParserInv p) {c : Channel} {ch : UInt8}
    (ho : partialLine c.other p = []) (hlf : ch ≠ lf) (hcr : (c, ch) ≠ (.cdc, cr)) :
    ParserInv (feed p (c, ch)) := by
  have hexecuted : (feed p (c, ch)).executed = p.executed := by
    simp only [feed, assemble_char p c hlf hcr]
  refine parserInv_of_parts (c := c) ⟨forall_channel c ?_ ?_, hexecuted ▸ hi.isolated.own⟩ ?_ ?_
  · rw [feed_taken, ownBytes_snoc_self, linesOf_snoc_ne _ _ hlf, ← hi.isolated.lines c, hexecuted]
  · rw [feed_taken, ownBytes_snoc_other, ← hi.isolated.lines c.other, hexecuted]
  · rw [partialLine_feed_other, ho]
  · rw [partialLine_feed_char p c hlf hcr, ← appendChar_take, ← hi.atLine_eq ho]
    simp only [feed, assemble_char p c hlf hcr]

theorem parserInv_feed_lf {p : Parser} (hi : ParserInv p) {c : Channel}
    (ho : partialLine c.other p = [])
    (hc : ∀ line ∈ commandLine ((partialLine c p).take (atLineMax - 1)), Complete line) :
    ParserInv (feed p (c, lf)) := by
  obtain ⟨hself, hother, hline, -⟩ := assemble_lf p c
  have hbuf : received p.atLine = (partialLine c p).take (atLineMax - 1) := by
    rw [hi.atLine_eq ho, received_take]
  rw [← hbuf] at hc
  refine parserInv_of_parts (c := c) ⟨forall_channel c ?_ ?_, own_lf hi.isolated.own c hc⟩ ?_ ?_
  · rw [feed_taken, ownBytes_snoc_self, linesOf_snoc_lf, ← hi.isolated.lines c]
    simp only [feed, hself, hbuf, partialLine]
  · rw [feed_taken, ownBytes_snoc_other, ← hi.isolated.lines c.other]
    exact hother
  · rw [partialLine_feed_other, ho]
  · rw [partialLine_feed_lf]
    exact hline

theorem parserInv_feed (p : Parser) (b : Channel × UInt8) (hi : ParserInv p)
    (hc : CleanByte p b) : ParserInv (feed p b) := by
  obtain ⟨c, ch⟩ := b
  by_cases hcr : (c, ch) = (.cdc, cr)
  · obtain ⟨rfl, rfl⟩ := Prod.mk.inj hcr
    exact parserInv_feed_cr hi
  · have ho := hc.1 hcr
    by_cases hlf : ch = lf
    · subst hlf
      exact parserInv_feed_lf hi ho (hc.2 rfl)
    · exact parserInv_feed_char hi ho hlf hcr

theorem parserInv_boot : ParserInv boot.parser := by
  refine ⟨⟨fun c => ?_, nofun⟩, Or.inl rfl, rfl⟩
  cases c <;> rfl

theorem parserInv_step (s : State) (e : Event) (hi : ParserInv s.parser) (hc : CleanPoll s e) :
    ParserInv (step s e).parser := by
  cases e with
  | poll rbr => exact (Run.always_of_along parserInv_feed hi hc).final
  | cdcOut pkt => exact hi

/-- No byte is lost in front of the parser: neither receive ring overflows in this step. -/
def NoOverrun (s : State) : Event → Prop
  | .poll rbr => s.atRx.count + rbr.length < atRxBufSize
  | .cdcOut pkt => s.cdcRx.count + pkt.length < cdcRxBufSize

/-- The bytes that arrived on a channel and wait in its receive ring. -/
def waiting (s : State) : Channel → List UInt8
  | .uart => s.atRx.contents
  | .cdc => s.cdcRx.contents

/-- Nothing that arrives goes missing before the parser takes it. -/
def Delivered (s : State) : Prop :=
  ∀ c, ownBytes c s.parser.taken ++ waiting s c = s.arrived c

theorem taken_foldl_feed (bs : List (Channel × UInt8)) (p : Parser) :
    (bs.foldl feed p).taken = p.taken ++ bs := by
  induction bs generalizing p with
  | nil => simp
  | cons b bs ih => simp [ih, feed_taken]

theorem ownBytes_append (c : Channel) (bs cs : List (Channel × UInt8)) :
    ownBytes c (bs ++ cs) = ownBytes c bs ++ ownBytes c cs := by
  simp [ownBytes]

theorem ownBytes_polled_uart (s : State) (rbr : List UInt8) :
    ownBytes .uart (polled s rbr) = ((s.atRx.offerAll rbr).popN atRxBufSize).1 := by
  simp [ownBytes, polled, List.filter_append, List.filter_map, Function.comp_def]

theorem ownBytes_polled_cdc (s : State) (rbr : List UInt8) :
    ownBytes .cdc (polled s rbr) = (s.cdcRx.popN 64).1 := by
  simp [ownBytes, polled, List.filter_append, List.filter_map, Function.comp_def]

theorem delivered_step (s : State) (e : Event) (hi : Delivered s) (hn : NoOverrun s e) :
    Delivered (step s e) := by
  intro c
  cases e with
  | poll rbr =>
    have hc := hi c
    cases c with
    | uart =>
      have hpop := Ring.popN_append_contents atRxBufSize (s.atRx.offerAll rbr)
      rw [Ring.contents_offerAll _ hn] at hpop
      simp only [step, waiting, taken_foldl_feed, ownBytes_append, ownBytes_polled_uart,
        List.append_assoc, hpop]
      rw [← List.append_assoc, ← hc]
      rfl
    | cdc =>
      simp only [step, waiting, taken_foldl_feed, ownBytes_append, ownBytes_polled_cdc,
        List.append_assoc, Ring.popN_append_contents]
      exact hc
  | cdcOut pkt =>
    have hc := hi c
    cases c with
    | uart => exact hc
    | cdc =>
      simp only [step, waiting, Ring.contents_pushAll, Ring.pushAll_fits _ hn]
      rw [← List.append_assoc, ← hc]
      rfl

theorem delivered_boot : Delivered boot := by
  intro c
  cases c <;> simp [boot, waiting, ownBytes]

/-- In every run whose bytes are all clean each channel's executed commands are the lines of its
own stream, and the parser takes exactly what arrived as long as no receive ring overflows. -/
theorem channels_isolated (es : List Event) (hc : Run.Along step CleanPoll boot es) :
    Run.Always step (fun s => Isolated s.parser) boot es ∧
      (Run.Along step NoOverrun boot es → Run.Always step Delivered boot es) := by
  constructor
  · have hi := Run.always_of_along (I := fun s => ParserInv s.parser) parserInv_step
      parserInv_boot hc
    exact hi.mono fun s hs => hs.isolated
  · intro hn
    exact Run.always_of_along delivered_step delivered_boot hn

/-- The line `AT` comes over UART, then `AT+VER` over CDC, each sent as a whole. -/
theorem channels_isolated_whole_lines :
    Run.Always step (fun s => Isolated s.parser) boot
        [.poll [0x41, 0x54, lf], .cdcOut [0x41, 0x54, 0x2B, 0x56, 0x45, 0x52, cr, lf], .poll []] ∧
      (Run.Along step NoOverrun boot
          [.poll [0x41, 0x54, lf], .cdcOut [0x41, 0x54, 0x2B, 0x56, 0x45, 0x52, cr, lf],
            .poll []] →
        Run.Always step Delivered boot
          [.poll [0x41, 0x54, lf], .cdcOut [0x41, 0x54, 0x2B, 0x56, 0x45, 0x52, cr, lf],
            .poll []]) := by
  apply channels_isolated
  refine ⟨?_, trivial, ?_, trivial⟩
  · refine ⟨?_, ?_, ?_, trivial⟩ <;> decide
  · refine ⟨?_, ?_, ?_, ?_, ?_, ?_, ?_, ?_, trivial⟩ <;> decide

/-- `AT` without a line feed on UART, then `X` with one on CDC: CDC gets the command `ATX`. -/
theorem spliced_line_not_isolated :
    ¬ ∀ es : List Event, Run.Always step (fun s => Isolated s.parser) boot es := by
  intro hall
  have h := (hall [.poll [0x41, 0x54], .cdcOut [0x58, lf], .poll []]).final.lines .cdc
  revert h
  decide +kernel

end AtNode.AtParser
