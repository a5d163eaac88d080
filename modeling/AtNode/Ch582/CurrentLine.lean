import AtNode.Ch582.ArgStore
import AtNode.Ch582.HandlerReads

/-!
# What an AT line of the CH582 firmware depends on

A line is handled alike after all earlier lines, with no entry of `at_argv` read from `argc` on,
exactly when it is empty, or has a token and is not an `AT+KEY_CFG` line with two arguments that
names one of the two pins.
-/

namespace AtNode.AtCmds

open ArgProgram AtParser CString Strtok

variable {n : ℕ} {σ : Type}

section Runs

variable (C : Chip n σ) (w : Node n σ)

/-- `at_process_line`, with what earlier lines left in the store. -/
def processLine (s : ArgStore) (buf : List UInt8) : ArgProgram.Run (Node n σ) Stop Unit :=
  match (processHead (lineOver s.line buf)).1 with
  | none => ⟨.value (), w, []⟩
  | some ps => (dispatch C ps.length (cmdTable C.build)).run (s.after buf).arg w

def ArgStore.argc (s : ArgStore) (buf : List UInt8) : ℕ :=
  ((processHead (lineOver s.line buf)).1.getD []).length

/-- The store after a history of lines. -/
def stored (history : List (List UInt8)) : ArgStore := Run.final ArgStore.after .boot history

/-- The line does the same after all histories, no handler reads an entry from `argc` on, and a line
without tokens is answered with an error and no read. -/
structure SeesOnlyLine (buf : List UInt8) : Prop where
  same : ∀ h h', processLine C w (stored h) buf = processLine C w (stored h') buf
  confined : ∀ h, ∀ i ∈ (processLine C w (stored h) buf).reads, i < (stored h).argc buf
  answered : ∀ line, commandLine (received buf) = some line → tokenize line = [] →
    ∀ h, processLine C w (stored h) buf = ⟨.value (), w.respond (bytes "ERROR"), []⟩

def ShortKeyCfg (tokens : List Text) : Prop :=
  ∃ name a b, tokens = [name, a, b] ∧ sameName name (bytes "AT+KEY_CFG") ∧
    (keyIndex (toU8 (atoi a))).isSome

instance : (tokens : List Text) → Decidable (ShortKeyCfg tokens)
  | [name, a, b] =>
    decidable_of_iff (sameName name (bytes "AT+KEY_CFG") ∧ (keyIndex (toU8 (atoi a))).isSome)
      ⟨fun h => ⟨name, a, b, rfl, h⟩, fun ⟨_, _, _, htokens, h⟩ => by cases htokens; exact h⟩
  | [] => isFalse nofun
  | [_] => isFalse nofun
  | [_, _] => isFalse nofun
  | _ :: _ :: _ :: _ :: _ => isFalse nofun

variable {C w} {buf line : List UInt8}

theorem processLine_of_empty (h : commandLine (received buf) = none) (s : ArgStore) :
    processLine C w s buf = ⟨.value (), w, []⟩ := by
  rcases processHead_eq s.line buf with ⟨-, hnone⟩ | ⟨line, ps, hsome, -⟩
  · simp only [processLine, hnone]
  · rw [h] at hsome
    cases hsome

/-- Of a line that is looked up: what the entries below `argc` point at. -/
theorem arg_of_line (h : commandLine (received buf) = some line) (s : ArgStore) :
    s.argc buf = (tokenize line).length ∧
      ∀ i < (tokenize line).length, (s.after buf).arg i = (tokenize line)[i]? := by
  rcases processHead_eq s.line buf with ⟨hnone, -⟩ | ⟨line', ps, hsome, hps, htokens⟩
  · rw [h] at hnone
    cases hnone
  · obtain rfl := Option.some.inj (h.symm.trans hsome)
    have hlen := htokens.length_eq
    refine ⟨?_, fun i hi => arg_after hps htokens (by omega)⟩
    rw [ArgStore.argc, hps, Option.getD_some, hlen]

theorem processLine_of_line (h : commandLine (received buf) = some line) (s : ArgStore) :
    processLine C w s buf =
      (dispatch C (tokenize line).length (cmdTable C.build)).run (s.after buf).arg w := by
  rcases processHead_eq s.line buf with ⟨hnone, -⟩ | ⟨line', ps, hsome, hps, htokens⟩
  · rw [h] at hnone
    cases hnone
  · obtain rfl := Option.some.inj (h.symm.trans hsome)
    simp only [processLine, hps, htokens.length_eq]

theorem dispatch_confined (h : commandLine (received buf) = some line) (hne : tokenize line ≠ [])
    (hshort : ¬ ShortKeyCfg (tokenize line)) (s : ArgStore) (cs : List Command) :
    (dispatch C (tokenize line).length cs).Confined (tokenize line).length (s.after buf).arg := by
  obtain ⟨-, harg⟩ := arg_of_line h s
  apply confined_dispatch C (List.length_pos_of_ne_nil hne)
  intro name hname hsame hthree a ha
  obtain ⟨x, y, z, htokens⟩ := List.length_eq_three.mp hthree
  rw [harg 0 (by omega), htokens] at hname
  rw [harg 1 (by omega), htokens] at ha
  obtain rfl := Option.some.inj hname
  obtain rfl := Option.some.inj ha
  by_contra hk
  exact hshort ⟨x, y, z, htokens, hsame, Option.isSome_iff_ne_none.mpr hk⟩

theorem seesOnlyLine_of_tokens (h : commandLine (received buf) = some line)
    (hne : tokenize line ≠ []) (hshort : ¬ ShortKeyCfg (tokenize line)) :
    SeesOnlyLine C w buf where
  same h₁ h₂ := by
    rw [processLine_of_line h, processLine_of_line h]
    apply (dispatch_confined h hne hshort _ _).run_congr
    intro i hi
    rw [(arg_of_line h _).2 i hi, (arg_of_line h _).2 i hi]
  confined history i hi := by
    rw [processLine_of_line h] at hi
    rw [(arg_of_line h _).1]
    exact (dispatch_confined h hne hshort _ _).lt_of_mem_reads hi
  answered line' h' hnil := by
    obtain rfl := Option.some.inj (h.symm.trans h')
    exact absurd hnil hne

theorem seesOnlyLine_of_empty (h : commandLine (received buf) = none) : SeesOnlyLine C w buf where
  same h₁ h₂ := by
    rw [processLine_of_empty h, processLine_of_empty h]
  confined history i hi := by
    rw [processLine_of_empty h] at hi
    cases hi
  answered line h' := by
    rw [h] at h'
    cases h'

variable (C w)

/-- The table is searched for what `argv[0]` points at, with or without a token. -/
theorem reads_name (h : commandLine (received buf) = some line) (s : ArgStore) :
    0 ∈ (processLine C w s buf).reads := by
  obtain ⟨cs, hcs⟩ : ∃ cs, cmdTable C.build = .at :: cs := ⟨_, rfl⟩
  rw [processLine_of_line h, hcs, dispatch]
  exact mem_reads_ask_bind _ _ _ _

theorem reads_of_shortKeyCfg (h : commandLine (received buf) = some line)
    (hshort : ShortKeyCfg (tokenize line)) (s : ArgStore) :
    3 ∈ (processLine C w s buf).reads ∧ s.argc buf = 3 := by
  obtain ⟨name, a, b, htokens, hsame, hsome⟩ := hshort
  obtain ⟨idx, hk⟩ := Option.isSome_iff_exists.mp hsome
  obtain ⟨hargc, harg⟩ := arg_of_line h s
  have hmem : .keyCfg ∈ cmdTable C.build := by
    simp [cmdTable]
  rw [processLine_of_line h, hargc]
  rw [htokens] at harg ⊢
  exact ⟨reads_dispatch_keyCfg C (harg 0 (by simp)) hsame (harg 1 (by simp)) hk (harg 2 (by simp)) w
    hmem, rfl⟩

/-- A line sees nothing of earlier lines exactly when it is empty, or it has a token and is not an
`AT+KEY_CFG` line with a pin and one more argument. -/
theorem sees_only_line_iff (C : Chip n σ) (w : Node n σ) (buf : List UInt8) :
    SeesOnlyLine C w buf ↔ ∀ line, commandLine (received buf) = some line →
      tokenize line ≠ [] ∧ ¬ ShortKeyCfg (tokenize line) := by
  constructor
  · intro hsees line hline
    refine ⟨fun hnil => ?_, fun hshort => ?_⟩
    · have hread := reads_name C w hline (stored [])
      rw [hsees.answered line hline hnil] at hread
      cases hread
    · obtain ⟨hread, hargc⟩ := reads_of_shortKeyCfg C w hline hshort (stored [])
      have hlt := hsees.confined [] 3 hread
      omega
  · intro h
    cases hline : commandLine (received buf) with
    | none => exact seesOnlyLine_of_empty hline
    | some line => exact seesOnlyLine_of_tokens hline (h line hline).1 (h line hline).2

/-- After a restart `argv[0]` is null; after `==AT` it points at what that line left behind `=`. -/
theorem separator_line_runs_stale_command :
    (processLine bareChip bareNode (stored []) (bytes "=")).ending = .fault ∧
      (processLine bareChip bareNode (stored [bytes "==AT"]) (bytes "=")).state.replies =
        [atResponse (bytes "OK")] ∧
      ¬ SeesOnlyLine bareChip bareNode (bytes "=") := by
  have hfault : (processLine bareChip bareNode (stored []) (bytes "=")).ending = .fault := by
    decide +kernel
  have hok : (processLine bareChip bareNode (stored [bytes "==AT"]) (bytes "=")).ending =
      .value () := by
    decide +kernel
  refine ⟨hfault, by decide +kernel, fun h => ?_⟩
  rw [h.same [] [bytes "==AT"], hok] at hfault
  cases hfault

end Runs

end AtNode.AtCmds
