import AtNode.Esp32.KbEngine

/-!
# What the host reads of a text

The engine plays the operations of the queue one behind the other, and a text as one press and one
release for each character that has a key. A host that reads these reports by the US layout types
exactly these characters, each time they come, unless the report before the text already holds the
key of the first of them: a bare report is held until the next one.
-/

namespace AtNode.Kb

open Hid Outputs

section Layout

theorem ascii_of_mapped {c : Char} (h : asciiToHid c ≠ none) : c.toNat < 128 := by
  unfold asciiToHid at h
  split at h
  · rename_i hlower
    exact Nat.lt_of_le_of_lt (Char.le_def.mp hlower.2) (by decide)
  · split at h
    · rename_i hupper
      exact Nat.lt_of_le_of_lt (Char.le_def.mp hupper.2) (by decide)
    · split at h
      all_goals first
        | decide
        | exact absurd rfl h

theorem charOf_ascii : ((List.range 128).all fun n => (asciiToHid (Char.ofNat n)).all fun k =>
    decide (k.2 ≠ 0) && decide (charOf k.1 k.2 = some (Char.ofNat n))) = true := by
  decide +kernel

theorem charOf_asciiToHid {c : Char} {mods key : UInt8} (h : asciiToHid c = some (mods, key)) :
    key ≠ 0 ∧ charOf mods key = some c := by
  have hlt := ascii_of_mapped (h ▸ Option.some_ne_none _)
  have hkey := List.all_eq_true.mp charOf_ascii c.toNat (List.mem_range.mpr hlt)
  rw [Char.ofNat_toNat, h, Option.all_some, Bool.and_eq_true, decide_eq_true_eq,
    decide_eq_true_eq] at hkey
  exact hkey

/-- The characters with a key are those of the layout. -/
theorem mapped_iff_typeable (c : Char) : (asciiToHid c).isSome = true ↔ Typeable c := by
  constructor
  · intro h
    obtain ⟨⟨mods, key⟩, hk⟩ := Option.isSome_iff_exists.mp h
    exact typeable_of_charOf (charOf_asciiToHid hk).2
  · have hall : ∀ k ∈ usLayout, (asciiToHid k.2.1).isSome = true ∧ (asciiToHid k.2.2).isSome = true := by
      decide +kernel
    rintro ⟨k, hk, rfl | rfl⟩
    · exact (hall k hk).1
    · exact (hall k hk).2

end Layout

section Host

variable {c : Char} {mods key : UInt8} {prev : Report} {cs : List Char}

/-- The reports of one character. -/
def strokes (c : Char) : List Report :=
  match asciiToHid c with
  | some (shift, kc) => [.press shift kc, release]
  | none => []

def textReports (cs : List Char) : List Report := cs.flatMap strokes

def mappable (cs : List Char) : List Char := cs.filter fun c => (asciiToHid c).isSome

/-- The key of the first mappable character stands in the report before the text. -/
def Clash (prev : Report) (cs : List Char) : Prop :=
  ∃ c mods key, (mappable cs).head? = some c ∧ asciiToHid c = some (mods, key) ∧ key ∈ prev.keys

theorem textReports_none (hc : asciiToHid c = none) : textReports (c :: cs) = textReports cs := by
  rw [textReports, List.flatMap_cons, strokes, hc]
  rfl

theorem textReports_some (hc : asciiToHid c = some (mods, key)) :
    textReports (c :: cs) = .press mods key :: .rest :: textReports cs := by
  rw [textReports, List.flatMap_cons, strokes, hc]
  rfl

theorem mappable_none (hc : asciiToHid c = none) : mappable (c :: cs) = mappable cs := by
  rw [mappable, List.filter_cons, hc]
  rfl

theorem mappable_some (hc : asciiToHid c = some (mods, key)) :
    mappable (c :: cs) = c :: mappable cs := by
  rw [mappable, List.filter_cons, hc]
  rfl

theorem not_mem_rest (h : key ≠ 0) : key ∉ Report.rest.keys := by
  simpa [Report.rest] using h

/-- After a release the whole text is typed. -/
theorem typed_textReports (cs : List Char) : typed .rest (textReports cs) = mappable cs := by
  induction cs with
  | nil => rfl
  | cons c cs ih =>
    cases hc : asciiToHid c with
    | none => rw [textReports_none hc, mappable_none hc, ih]
    | some k =>
      obtain ⟨hkey, hchar⟩ := charOf_asciiToHid hc
      rw [textReports_some hc, mappable_some hc, typed_stroke hkey hchar, if_neg (not_mem_rest hkey), ih]

/-- The first stroke is the one that can be lost. -/
theorem typed_textReports_iff (prev : Report) (cs : List Char) :
    typed prev (textReports cs) = mappable cs ↔ ¬ Clash prev cs := by
  induction cs with
  | nil =>
    refine iff_of_true rfl ?_
    rintro ⟨c, mods, key, hhead, -⟩
    cases hhead
  | cons c cs ih =>
    cases hc : asciiToHid c with
    | none =>
      rw [textReports_none hc, Clash, mappable_none hc]
      exact ih
    | some k =>
      obtain ⟨mods, key⟩ := k
      obtain ⟨hkey, hchar⟩ := charOf_asciiToHid hc
      rw [textReports_some hc, mappable_some hc, typed_stroke hkey hchar, typed_textReports]
      have hclash : Clash prev (c :: cs) ↔ key ∈ prev.keys := by
        rw [Clash, mappable_some hc]
        constructor
        · rintro ⟨c', mods', key', hhead, hc', hmem⟩
          cases hhead
          rw [hc] at hc'
          cases hc'
          exact hmem
        · exact fun hmem => ⟨c, mods, key, rfl, hc, hmem⟩
      rw [hclash]
      split_ifs with hmem
      · exact iff_of_false (fun heq => List.cons_ne_self c _ heq.symm) fun h => h hmem
      · exact iff_of_true rfl hmem

end Host

section Engine

variable (f : Features) {s : State} {e : Event}

/-- What goes out in a step. -/
def sent (s : State) : Event → List (Target × Report)
  | .engine =>
    match s.running with
    | some ⟨_, .emit rep :: _, _⟩ => emit f s.target rep []
    | _ => []
  | .post _ | .dev _ => []

def trace (s : State) : List Event → List (Target × Report)
  | [] => []
  | e :: es => sent f s e ++ trace (step f s e) es

def queued (s : State) : Event → List Op
  | .post op => if (post s op).2 then [op] else []
  | .engine | .dev _ => []

def queuedAll (s : State) : List Event → List Op
  | [] => []
  | e :: es => queued s e ++ queuedAll (step f s e) es

/-- The operations that were begun. -/
def begun (s : State) : List Running := s.finished ++ s.running.toList

theorem emit_eq (target : Target) (rep : Report) (log : List (Target × Report)) :
    emit f target rep log = log ++ emit f target rep [] := by
  unfold emit
  split_ifs
  · rfl
  · exact (List.append_nil _).symm

section Running

variable {r : Running} {rest : List Action} {rep : Report}

theorem sent_idle (hr : s.running = none) : sent f s .engine = [] := by
  rw [sent, hr]

theorem sent_of_head (hr : s.running = some r) (hs : ∀ rep rest, r.script ≠ .emit rep :: rest) :
    sent f s .engine = [] := by
  obtain ⟨op, script, log⟩ := r
  rw [sent, hr]
  cases script with
  | nil => rfl
  | cons a rest =>
    cases a with
    | wait ms => rfl
    | emit rep => exact absurd rfl (hs rep rest)

theorem sent_emit (hr : s.running = some r) (hs : r.script = .emit rep :: rest) :
    sent f s .engine = emit f s.target rep [] := by
  obtain ⟨op, script, log⟩ := r
  cases hs
  rw [sent, hr]

end Running

/-- A step adds what it sends to the operation that runs, the last one begun, and takes the operations
in the order of the queue. -/
theorem engine_step (s : State) :
    (begun (engineStep f s)).flatMap Running.log = (begun s).flatMap Running.log ++ sent f s .engine ∧
      (begun (engineStep f s)).map Running.op ++ (engineStep f s).ops =
        (begun s).map Running.op ++ s.ops := by
  cases hr : s.running with
  | none =>
    rw [sent_idle f hr, List.append_nil]
    cases ho : s.ops with
    | nil =>
      rw [engineStep_idle f hr ho, ho]
      exact ⟨rfl, rfl⟩
    | cons op ops =>
      rw [engineStep_receive f hr ho, begun, begun, hr]
      constructor
      · rw [List.flatMap_append, List.flatMap_append]
        rfl
      · rw [List.map_append, List.map_append, List.append_assoc, List.append_assoc]
        rfl
  | some r =>
    cases hs : r.script with
    | nil =>
      have hhead : ∀ rep rest, r.script ≠ .emit rep :: rest := fun rep rest h => by
        rw [hs] at h
        cases h
      rw [sent_of_head f hr hhead, engineStep_finish f hr hs, begun, begun, hr, List.append_nil]
      dsimp only
      rw [Option.toList_none, List.append_nil]
      exact ⟨rfl, rfl⟩
    | cons a rest =>
      cases a with
      | wait ms =>
        have hhead : ∀ rep rest, r.script ≠ .emit rep :: rest := fun rep rest h => by
          rw [hs] at h
          cases h
        rw [sent_of_head f hr hhead, engineStep_wait f hr hs, begun, begun, hr, List.append_nil]
        constructor
        · rw [List.flatMap_append, List.flatMap_append]
          rfl
        · rw [List.map_append, List.map_append]
          rfl
      | emit rep =>
        rw [sent_emit f hr hs, engineStep_emit f hr hs, begun, begun, hr]
        constructor
        · rw [List.flatMap_append, List.flatMap_append, List.append_assoc]
          dsimp only
          rw [Option.toList_some, Option.toList_some, List.flatMap_singleton, List.flatMap_singleton,
            emit_eq]
        · rw [List.map_append, List.map_append]
          rfl

theorem order_step (s : State) (e : Event) :
    (begun (step f s e)).flatMap Running.log = (begun s).flatMap Running.log ++ sent f s e ∧
      (begun (step f s e)).map Running.op ++ (step f s e).ops =
        (begun s).map Running.op ++ s.ops ++ queued s e := by
  cases e with
  | engine =>
    rw [queued, List.append_nil]
    exact engine_step f s
  | post op =>
    rw [step, sent, queued, List.append_nil]
    by_cases hroom : s.ops.length < opsCapacity
    · have hpost : post s op = ({ s with ops := s.ops ++ [op] }, true) := if_pos hroom
      rw [hpost]
      exact ⟨rfl, (List.append_assoc _ _ _).symm⟩
    · have hpost : post s op = (s, false) := if_neg hroom
      rw [hpost]
      exact ⟨rfl, (List.append_nil _).symm⟩
  | dev args =>
    have hdev : (handleDev f s args).1 = s ∨ ∃ t, (handleDev f s args).1 = { s with target := t } := by
      simp only [handleDev, setTarget]
      repeat' split
      all_goals first
        | exact Or.inl rfl
        | exact Or.inr ⟨_, rfl⟩
    rw [step, sent, queued, List.append_nil, List.append_nil]
    rcases hdev with heq | ⟨t, heq⟩
    · rw [heq]
      exact ⟨rfl, rfl⟩
    · rw [heq]
      exact ⟨rfl, rfl⟩

theorem order (s : State) (es : List Event) :
    (begun (Run.final (step f) s es)).flatMap Running.log = (begun s).flatMap Running.log ++ trace f s es ∧
      (begun (Run.final (step f) s es)).map Running.op ++ (Run.final (step f) s es).ops =
        (begun s).map Running.op ++ s.ops ++ queuedAll f s es := by
  induction es generalizing s with
  | nil => exact ⟨(List.append_nil _).symm, (List.append_nil _).symm⟩
  | cons e es ih =>
    obtain ⟨hlog, hops⟩ := order_step f s e
    obtain ⟨hlog', hops'⟩ := ih (step f s e)
    rw [hlog, List.append_assoc] at hlog'
    rw [hops, List.append_assoc] at hops'
    exact ⟨hlog', hops'⟩

/-- The reports of a script. -/
def emits (script : List Action) : List Report :=
  script.filterMap fun a =>
    match a with
    | .emit r => some r
    | .wait _ => none

theorem emits_append (script script' : List Action) :
    emits (script ++ script') = emits script ++ emits script' := List.filterMap_append

theorem emits_text (ms gap : UInt32) (cs : List Char) :
    emits (cs.flatMap (typeChar ms gap)) = textReports cs := by
  induction cs with
  | nil => rfl
  | cons c cs ih =>
    rw [List.flatMap_cons, emits_append, ih, typeChar]
    cases hc : asciiToHid c with
    | none =>
      rw [textReports_none hc]
      rfl
    | some k =>
      rw [textReports_some hc]
      rfl

/-- Each operation has sent the reports of what it has played to one backend. -/
structure Played (s : State) : Prop where
  backend : f.backend s.target = true
  running : ∀ r, s.running = some r → ∃ done, r.op.script = done ++ r.script ∧
    r.log = (emits done).map fun rep => (s.target, rep)
  finished : ∀ r ∈ s.finished, ∃ t, f.backend t = true ∧
    r.log = (emits r.op.script).map fun rep => (t, rep)

theorem played_boot (h : f.enabled = true) : Played f (boot f) := by
  refine ⟨?_, fun r hr => ?_, fun r hr => absurd hr List.not_mem_nil⟩
  · rw [boot, Features.bootTarget]
    cases husb : f.kbdUsb with
    | true => exact husb
    | false =>
      rw [Features.enabled, husb, Bool.false_or] at h
      exact h
  · cases hr

theorem played_engine (h : Played f s) : Played f (engineStep f s) := by
  cases hr : s.running with
  | none =>
    cases ho : s.ops with
    | nil =>
      rw [engineStep_idle f hr ho]
      exact h
    | cons op ops =>
      rw [engineStep_receive f hr ho]
      refine ⟨h.backend, fun r hrun => ?_, h.finished⟩
      cases hrun
      exact ⟨[], rfl, rfl⟩
  | some r =>
    obtain ⟨done, hscript, hlog⟩ := h.running r hr
    cases hs : r.script with
    | nil =>
      rw [engineStep_finish f hr hs]
      rw [hs, List.append_nil] at hscript
      refine ⟨h.backend, fun q hq => absurd hq.symm (Option.some_ne_none q), fun q hq => ?_⟩
      rcases List.mem_append.mp hq with hold | hnew
      · exact h.finished q hold
      · rw [List.mem_singleton.mp hnew, hscript]
        exact ⟨s.target, h.backend, hlog⟩
    | cons a rest =>
      rw [hs, List.append_cons] at hscript
      cases a with
      | wait ms =>
        rw [engineStep_wait f hr hs]
        refine ⟨h.backend, fun q hq => ?_, h.finished⟩
        cases hq
        refine ⟨done ++ [.wait ms], hscript, ?_⟩
        rw [hlog, emits_append]
        exact (congrArg _ (List.append_nil _)).symm
      | emit rep =>
        rw [engineStep_emit f hr hs]
        refine ⟨h.backend, fun q hq => ?_, h.finished⟩
        cases hq
        refine ⟨done ++ [.emit rep], hscript, ?_⟩
        rw [emits_append, List.map_append, ← hlog]
        exact if_pos h.backend

theorem target_step (h : f.backend s.target = true) (he : e ≠ .engine) :
    f.backend (step f s e).target = true := by
  have hset : ∀ t, f.backend (setTarget f s t).1.target = true := by
    intro t
    rw [setTarget]
    split_ifs with ht
    · exact ht
    · exact h
  cases e with
  | engine => exact absurd rfl he
  | post op =>
    rw [step, post]
    split_ifs
    · exact h
    · exact h
  | dev args =>
    rw [step, handleDev]
    split_ifs
    · exact h
    · exact hset .usb
    · exact hset .ble
    · exact h

theorem played_step (h : Played f s) (e : Event) (hk : TargetKept f s e) : Played f (step f s e) := by
  by_cases he : e = .engine
  · rw [he]
    exact played_engine f h
  · obtain ⟨hrun, hfin⟩ := step_other f s e he
    refine ⟨target_step f h.backend he, fun r hr => ?_, ?_⟩
    · rw [hrun] at hr
      rcases hk with hnone | hkept
      · rw [hnone] at hr
        cases hr
      · rw [hkept]
        exact h.running r hr
    · rw [hfin]
      exact h.finished

theorem played_run {es : List Event} (henabled : f.enabled = true)
    (hk : Run.Along (step f) (TargetKept f) (boot f) es) : Played f (Run.final (step f) (boot f) es) := by
  have halways : Run.Always (step f) (Played f) (boot f) es :=
    Run.always_of_along (fun _ e h hkept => played_step f h e hkept) (played_boot f henabled) hk
  exact halways.final

end Engine

section Texts

/-- The last report that went to a backend. -/
def lastOn (t : Target) (log : List (Target × Report)) : Report :=
  ((log.filter fun p => p.1 = t).getLast?.map Prod.snd).getD release

/-- A text that has been played went to one backend as the reports of its characters, and the host
types its mappable characters unless the report before holds the key of the first of them. -/
def TextPlayed (f : Features) (before : List Running) (r : Running) : Prop :=
  ∀ s ms gap h, r.op = .text s ms gap h → ∃ t, f.backend t = true ∧
    r.log = (textReports s.toList).map (fun rep => (t, rep)) ∧
    (typed (lastOn t (before.flatMap Running.log)) (textReports s.toList) = mappable s.toList ↔
      ¬ Clash (lastOn t (before.flatMap Running.log)) s.toList)

/-- In every run in which the target changes between two operations only: what goes out is the
reports of one operation after the other, in the order in which the queue took them, and every text
is played as its characters. -/
theorem text_playback (f : Features) (henabled : f.enabled = true) (es : List Event)
    (hk : Run.Along (step f) (TargetKept f) (boot f) es) :
    trace f (boot f) es = (begun (Run.final (step f) (boot f) es)).flatMap Running.log ∧
      queuedAll f (boot f) es =
        (begun (Run.final (step f) (boot f) es)).map Running.op ++ (Run.final (step f) (boot f) es).ops ∧
      ∀ before r after, (Run.final (step f) (boot f) es).finished = before ++ r :: after →
        TextPlayed f before r := by
  obtain ⟨hlog, hops⟩ := order f (boot f) es
  refine ⟨hlog.symm, hops.symm, fun before r after hfin s ms gap h hop => ?_⟩
  have hmem : r ∈ (Run.final (step f) (boot f) es).finished := by
    rw [hfin]
    exact List.mem_append_right _ List.mem_cons_self
  obtain ⟨t, ht, hr⟩ := (played_run f henabled hk).finished r hmem
  have hscript : emits r.op.script = textReports s.toList := by
    rw [hop]
    exact emits_text ms gap s.toList
  rw [hscript] at hr
  exact ⟨t, ht, hr, typed_textReports_iff _ _⟩

/-- Two characters, played to their end on a build with USB only. -/
def greeting : List Event :=
  .post (.text "hi" 20 20 (by decide)) :: List.replicate 10 .engine

theorem text_played_over_usb : ∃ r,
    (Run.final (step ⟨true, false⟩) (boot ⟨true, false⟩) greeting).finished = [r] ∧
    trace ⟨true, false⟩ (boot ⟨true, false⟩) greeting = r.log ∧
    r.log = [(.usb, .press 0 0x0B), (.usb, .rest), (.usb, .press 0 0x0C), (.usb, .rest)] ∧
    typed .rest (r.log.map Prod.snd) = "hi".toList := by
  obtain ⟨hlog, -, hplayed⟩ := text_playback ⟨true, false⟩ rfl greeting
    ⟨Or.inr rfl, Or.inr rfl, Or.inr rfl, Or.inr rfl, Or.inr rfl, Or.inr rfl, Or.inr rfl, Or.inr rfl,
      Or.inr rfl, Or.inr rfl, Or.inr rfl, trivial⟩
  refine ⟨_, rfl, hlog.trans (List.append_nil _), rfl, ?_⟩
  obtain ⟨t, -, hreports, htyped⟩ := hplayed [] _ [] rfl "hi" 20 20 (by decide) rfl
  have hclash : ¬ Clash .rest "hi".toList := by
    rintro ⟨_, _, _, _, hkey, hmem⟩
    exact not_mem_rest (charOf_asciiToHid hkey).1 hmem
  rw [hreports, List.map_map]
  exact htyped.mpr hclash

/-- `AT+KEY` holds a key, and the text begins with the same key. -/
def heldRun : List Event :=
  [.post (.hold (.press 0 4)), .post (.text "a" 20 20 (by decide))] ++ List.replicate 9 .engine

theorem held_key_hides_char :
    (Run.final (step ⟨true, false⟩) (boot ⟨true, false⟩) heldRun).finished.map Running.log =
        [[(.usb, .press 0 4)], [(.usb, .press 0 4), (.usb, .rest)]] ∧
      typed (.press 0 4) [.press 0 4, .rest] ≠ mappable "a".toList := by
  constructor
  · rfl
  · have hmem : 4 ∈ (Report.press 0 4).keys := by simp [Report.press]
    have hclash : Clash (.press 0 4) "a".toList := ⟨'a', 0, 4, rfl, rfl, hmem⟩
    exact fun h => (typed_textReports_iff (.press 0 4) "a".toList).mp h hclash

end Texts

end AtNode.Kb
