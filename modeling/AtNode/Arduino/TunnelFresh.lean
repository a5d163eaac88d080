import AtNode.Arduino.TunnelTasks

/-!
# The configuration that the tunnel runs with

The manager copies the configuration field by field and works with the texts of the copy (server, token,
service and local address) until a flag tells it to take another. So no flag may get lost: a text that
differs from the configuration has to go with a flag that is up, a tunnel that is not wanted, or a call that
is about to raise the flag.

Two accesses can break that, and only if calls of two tasks overlap: the second store of `rathole_start`,
when a setter of another task has found the tunnel stopped in between, and the stores of `rathole_clear`,
when another task has started the tunnel again in between.
-/

namespace AtNode.RatholeTasks

open Run
open ArduinoString (Str ascii)
open RatholeClient (TunnelCfg Field fieldOf assign)

variable {ι : Type*}

section Copies

/-- The manager works with a copy of the field, or will. -/
def Pc.copied : Pc → Field → Prop
  | .copy g rest, f => f ∉ g :: rest
  | .handshake, _ | .wanted, _ | .settled, _ | .body, _ => True
  | _, _ => False

/-- The copy of a text the tunnel connects with differs from the configuration. -/
def Stale (m : Manager) (cfg : TunnelCfg) : Prop :=
  ∃ f : Field, f.Textual ∧ m.pc.copied f ∧ textOf m.snap f ≠ textOf cfg f

instance : DecidablePred Field.Textual := fun f => by
  cases f with
  | server | token | svc | localAddr => exact isTrue trivial
  | auto | en | retry => exact isFalse id

instance (pc : Pc) (f : Field) : Decidable (pc.copied f) := by
  cases pc with
  | copy g rest => exact inferInstanceAs (Decidable (f ∉ g :: rest))
  | handshake | wanted | settled | body => exact isTrue trivial
  | _ => exact isFalse id

instance (m : Manager) (cfg : TunnelCfg) : Decidable (Stale m cfg) :=
  decidable_of_iff
    (∃ f ∈ Field.all, f.Textual ∧ m.pc.copied f ∧ textOf m.snap f ≠ textOf cfg f)
    ⟨fun ⟨f, _, h⟩ => ⟨f, h⟩, fun ⟨f, h⟩ => ⟨f, RatholeClient.mem_all f, h⟩⟩

variable {t : Shared} {m : Manager} {cfg c d : TunnelCfg} {f g : Field}

theorem not_stale (h : ∀ f, ¬ m.pc.copied f) : ¬ Stale m cfg := fun ⟨f, _, hf, _⟩ => h f hf

theorem textOf_copyField (hf : f.Textual) :
    textOf (copyField d c g) f = if f = g then textOf c f else textOf d f := by
  cases f with
  | server | token | svc | localAddr => cases g <;> rfl
  | auto | en | retry => exact hf.elim

theorem textOf_assign (hf : f.Textual) (hg : f ≠ g) (val : Str) :
    textOf (assign c g val) f = textOf c f := by
  cases f with
  | server | token | svc | localAddr => cases g <;> first | rfl | exact absurd rfl hg
  | auto | en | retry => exact hf.elim

theorem stale_copy {rest : List Field} (hpc : m.pc = .copy g rest)
    (h : Stale { m with snap := copyField m.snap cfg g, pc := .copying rest } cfg) : Stale m cfg := by
  obtain ⟨f, hf, hcopied, hne⟩ := h
  rw [textOf_copyField hf] at hne
  split_ifs at hne with hfg
  · exact absurd rfl hne
  · refine ⟨f, hf, ?_, hne⟩
    rw [hpc]
    cases rest with
    | nil => simpa [Pc.copied] using hfg
    | cons g' gs =>
      intro hmem
      rcases List.mem_cons.mp hmem with h | h
      · exact hfg h
      · exact hcopied h

theorem Stale.mono {m' : Manager} (hsnap : m'.snap = m.snap) (hpc : ∀ f, m'.pc.copied f → m.pc.copied f)
    (h : Stale m' cfg) : Stale m cfg := by
  obtain ⟨f, hf, hcopied, hne⟩ := h
  exact ⟨f, hf, hpc f hcopied, hsnap ▸ hne⟩

/-- The manager changes neither the configuration nor what is wanted, and lowers the flag only when it has
no copy. -/
theorem managerStep_spec {r : Shared × Manager} (o : Outcome) (hr : managerStep t m o = r) :
    r.1.cfg = t.cfg ∧ r.1.wantRun = t.wantRun ∧ r.1.task = t.task ∧
      (Stale r.2 t.cfg → Stale m t.cfg ∧ r.1.reconfig = t.reconfig) := by
  have hnone {r : Shared × Manager} (h : ∀ f, ¬ r.2.pc.copied f) :
      Stale r.2 t.cfg → Stale m t.cfg ∧ r.1.reconfig = t.reconfig :=
    fun hs => absurd hs (not_stale h)
  have hkept {r : Shared × Manager} (h : ∀ f, m.pc.copied f) (hsnap : r.2.snap = m.snap)
      (hflag : r.1.reconfig = t.reconfig) :
      Stale r.2 t.cfg → Stale m t.cfg ∧ r.1.reconfig = t.reconfig :=
    fun hs => ⟨hs.mono hsnap fun f _ => h f, hflag⟩
  rcases hpc : m.pc with _ | _ | _ | _ | _ | ⟨g, rest⟩ | _ | _ | _ | _ | _ | w | w <;>
    simp only [managerStep, hpc] at hr
  case absent =>
    subst hr
    exact ⟨rfl, rfl, rfl, fun h => ⟨h, rfl⟩⟩
  case top =>
    split_ifs at hr
    · subst hr
      exact ⟨rfl, rfl, rfl, hnone fun _ => id⟩
    · subst hr
      exact ⟨rfl, rfl, rfl, hnone fun _ => id⟩
  case base =>
    subst hr
    exact ⟨rfl, rfl, rfl, hnone fun _ => id⟩
  case gates =>
    split at hr <;> subst hr <;> exact ⟨rfl, rfl, rfl, hnone fun _ => id⟩
  case clear =>
    subst hr
    exact ⟨rfl, rfl, rfl, hnone fun f hf => hf (RatholeClient.mem_all f)⟩
  case copy =>
    subst hr
    exact ⟨rfl, rfl, rfl, fun h => ⟨stale_copy hpc h, rfl⟩⟩
  case handshake =>
    split at hr
    · subst hr
      exact ⟨rfl, rfl, rfl, hnone fun _ => id⟩
    · subst hr
      exact ⟨rfl, rfl, rfl, hkept (by rw [hpc]; exact fun _ => trivial) rfl rfl⟩
  case wanted =>
    subst hr
    exact ⟨rfl, rfl, rfl, hkept (by rw [hpc]; exact fun _ => trivial) rfl rfl⟩
  case settled =>
    subst hr
    exact ⟨rfl, rfl, rfl, hkept (by rw [hpc]; exact fun _ => trivial) rfl rfl⟩
  case body =>
    split at hr
    · subst hr
      exact ⟨rfl, rfl, rfl, hnone fun _ => id⟩
    · subst hr
      exact ⟨rfl, rfl, rfl, hkept (by rw [hpc]; exact fun _ => trivial) rfl rfl⟩
  case down =>
    subst hr
    refine ⟨?_, ?_, ?_, hnone fun _ => id⟩ <;> split_ifs <;> rfl
  case pause =>
    split_ifs at hr <;> subst hr <;> exact ⟨rfl, rfl, rfl, hnone fun _ => id⟩
  case paused =>
    split_ifs at hr <;> subst hr <;> exact ⟨rfl, rfl, rfl, hnone fun _ => id⟩

end Copies

section Flags

variable {s : System ι} {e : Event ι} {i : ι} {a : Access} {rest : List Access}

def Due : List Access → Prop
  | .ifRunning :: _ | .reconfig :: _ => True
  | _ => False

instance : ∀ l, Decidable (Due l)
  | .ifRunning :: _ | .reconfig :: _ => isTrue trivial
  | [] | .assign _ _ :: _ | .ifDisabled :: _ | .wantRun _ :: _ | .wipe _ :: _ | .master _ :: _
  | .need _ _ :: _ | .unlessTask :: _ | .create :: _ | .noTask :: _ | .setErr _ :: _ => isFalse id

/-- What the manager works with is the configuration, unless it is told, or about to be told. -/
def Covered (s : System ι) : Prop :=
  Stale s.manager s.shared.cfg →
    s.shared.reconfig = true ∨ s.shared.wantRun = false ∨ ∃ i, Due (s.calls i)

/-- The two accesses that can leave the manager with an old copy, and when they do not. -/
def Safe (s : System ι) : Event ι → Prop
  | .caller i _ =>
    match s.calls i with
    | .wantRun true :: _ =>
      Stale s.manager s.shared.cfg → s.shared.reconfig = true ∨ ∃ j, j ≠ i ∧ Due (s.calls j)
    | .wipe f :: _ =>
      Stale s.manager (copyField s.shared.cfg .zero f) →
        s.shared.reconfig = true ∨ s.shared.wantRun = false ∨ ∃ j, j ≠ i ∧ Due (s.calls j)
    | _ => True
  | _ => True

def Shaped : List Access → Prop
  | [] => True
  | .assign f _ :: rest => (f.Textual → Due rest) ∧ Shaped rest
  | .wantRun true :: rest => ¬ Due rest ∧ Shaped rest
  | .wipe _ :: rest => ¬ Due rest ∧ Shaped rest
  | _ :: rest => Shaped rest

def AllShaped (s : System ι) : Prop := ∀ i, Shaped (s.calls i)

theorem shaped_accesses (c : Call) : Shaped c.accesses := by
  have hstart : Shaped ratholeStart := by
    simp [ratholeStart, configured, Shaped, Due]
  cases c with
  | set key val =>
    rw [Call.accesses, ratholeSet]
    rcases fieldOf key with _ | f
    · trivial
    · cases f <;> simp [Shaped, Due, Field.Textual]
  | start => exact hstart
  | stop => trivial
  | clear => simp [Call.accesses, ratholeClear, ratholeStop, Field.all, Shaped, Due]
  | setEnabled on =>
    cases on with
    | true => simpa [Call.accesses, ratholeSetEnabled, Shaped] using hstart
    | false => trivial
  | boot => simpa [Call.accesses, ratholeInit, configured, Shaped] using hstart

theorem Shaped.tail (h : Shaped (a :: rest)) : Shaped rest := by
  cases a with
  | assign => exact h.2
  | wantRun on =>
    cases on with
    | true => exact h.2
    | false => exact h
  | wipe => exact h.2
  | _ => exact h

theorem exec_cases (t : Shared) (made : Bool) (rest : List Access) (a : Access) :
    (exec t made rest a).2 = [] ∨ (exec t made rest a).2 = rest ∨
      a = .ifRunning ∧ (exec t made rest a).2 = .reconfig :: rest ∨
      a = .ifDisabled ∧ (exec t made rest a).2 = .ifRunning :: rest ∨
      a = .ifDisabled ∧ (exec t made rest a).2 = .wantRun false :: .reconfig :: rest ∨
      a = .create ∧ made = false ∧
        (exec t made rest a).2 = [.wantRun false, .noTask, .setErr "task create failed"] := by
  cases a with
  | ifRunning =>
    simp only [exec]
    split_ifs <;> simp
  | ifDisabled =>
    simp only [exec]
    split_ifs <;> simp [ratholeStop]
  | need n err =>
    simp only [exec]
    split_ifs
    · simp
    · cases err <;> simp
  | unlessTask =>
    simp only [exec]
    split_ifs <;> simp
  | create =>
    simp only [exec]
    split_ifs with h
    · simp
    · simp [Bool.of_not_eq_true h]
  | _ => exact Or.inr (Or.inl rfl)

theorem shaped_exec (h : Shaped (a :: rest)) (t : Shared) (made : Bool) :
    Shaped (exec t made rest a).2 := by
  rcases exec_cases t made rest a with h' | h' | ⟨-, h'⟩ | ⟨-, h'⟩ | ⟨-, h'⟩ | ⟨-, -, h'⟩ <;> rw [h']
  · trivial
  · exact h.tail
  · exact h.tail
  · exact h.tail
  · exact h.tail
  · trivial

theorem exec_need (t : Shared) (made : Bool) (rest : List Access) (n : Need) (err : Option String) :
    (exec t made rest (.need n err)).1 = { t with
      lastError := (exec t made rest (.need n err)).1.lastError } := by
  simp only [exec]
  split_ifs
  · rfl
  · cases err <;> rfl

theorem exec_create (t : Shared) (made : Bool) (rest : List Access) :
    (exec t made rest .create).1 = { t with task := made || t.task } := by
  cases made <;> rfl

theorem stale_created {cfg : TunnelCfg} {made : Bool} (h : Stale (s.manager.created a made) cfg) :
    Stale s.manager cfg := by
  unfold Manager.created at h
  split_ifs at h
  · exact absurd h (not_stale fun _ => id)
  · exact h

end Flags

section Steps

variable [DecidableEq ι] {s : System ι} {e : Event ι} {i : ι} {a : Access} {rest : List Access}

theorem step_caller (hcalls : s.calls i = a :: rest) (made : Bool) : step s (.caller i made) =
    { shared := (exec s.shared made rest a).1
      manager := s.manager.created a made
      calls := Function.update s.calls i (exec s.shared made rest a).2 } := by
  simp only [step, hcalls]

theorem due_self {l : List Access} (h : Due l) : Due (Function.update s.calls i l i) := by
  rwa [Function.update_self]

theorem due_other {l : List Access} {j : ι} (hj : j ≠ i) (h : Due (s.calls j)) :
    Due (Function.update s.calls i l j) := by
  rwa [Function.update_of_ne hj]

theorem due_update (hcalls : s.calls i = a :: rest) (hdue : ¬ Due (a :: rest)) {l : List Access}
    (h : ∃ j, Due (s.calls j)) : ∃ j, j ≠ i ∧ Due (Function.update s.calls i l j) := by
  obtain ⟨j, hj⟩ := h
  have hne : j ≠ i := by
    rintro rfl
    exact hdue (hcalls ▸ hj)
  exact ⟨j, hne, due_other hne hj⟩

/-- An access that neither changes what is copied nor takes a flag back keeps the copy covered. -/
theorem covered_exec {made : Bool} (hc : Covered s) (hcalls : s.calls i = a :: rest)
    (hdue : ¬ Due (a :: rest))
    (hstale : Stale s.manager (exec s.shared made rest a).1.cfg → Stale s.manager s.shared.cfg)
    (hflag : s.shared.reconfig = true → (exec s.shared made rest a).1.reconfig = true)
    (hrun : s.shared.wantRun = false → (exec s.shared made rest a).1.wantRun = false) :
    Covered (step s (.caller i made)) := by
  rw [step_caller hcalls]
  intro h
  rcases hc (hstale (stale_created h)) with h | h | h
  · exact Or.inl (hflag h)
  · exact Or.inr (Or.inl (hrun h))
  · obtain ⟨j, -, hj⟩ := due_update hcalls hdue h
    exact Or.inr (Or.inr ⟨j, hj⟩)

theorem covered_caller {made : Bool} (hc : Covered s) (hcalls : s.calls i = a :: rest)
    (hshape : Shaped (a :: rest)) (hsafe : Safe s (.caller i made)) :
    Covered (step s (.caller i made)) := by
  simp only [Safe, hcalls] at hsafe
  cases a with
  | assign f val =>
    by_cases hf : f.Textual
    · rw [step_caller hcalls]
      exact fun _ => Or.inr (Or.inr ⟨i, due_self (hshape.1 hf)⟩)
    · refine covered_exec hc hcalls id ?_ id id
      rintro ⟨g, hg, hcopied, hne⟩
      have hgf : g ≠ f := fun h => hf (h ▸ hg)
      exact ⟨g, hg, hcopied, fun h => hne (h.trans (textOf_assign hg hgf val).symm)⟩
  | ifRunning =>
    rw [step_caller hcalls]
    by_cases hrun : s.shared.wantRun = true
    · refine fun _ => Or.inr (Or.inr ⟨i, due_self ?_⟩)
      rw [exec, if_pos hrun]
      trivial
    · exact fun _ => Or.inr (Or.inl (Bool.of_not_eq_true hrun))
  | wantRun on =>
    rw [step_caller hcalls]
    cases on with
    | true =>
      intro h
      rcases hsafe (stale_created h) with h | ⟨j, hj, hdue⟩
      · exact Or.inl h
      · exact Or.inr (Or.inr ⟨j, due_other hj hdue⟩)
    | false => exact fun _ => Or.inr (Or.inl rfl)
  | reconfig =>
    rw [step_caller hcalls]
    exact fun _ => Or.inl rfl
  | wipe f =>
    rw [step_caller hcalls]
    intro h
    rcases hsafe (stale_created h) with h | h | ⟨j, hj, hdue⟩
    · exact Or.inl h
    · exact Or.inr (Or.inl h)
    · exact Or.inr (Or.inr ⟨j, due_other hj hdue⟩)
  | need n err =>
    refine covered_exec hc hcalls id ?_ ?_ ?_ <;> rw [exec_need] <;> exact id
  | create =>
    refine covered_exec hc hcalls id ?_ ?_ ?_ <;> rw [exec_create] <;> exact id
  | ifDisabled => exact covered_exec hc hcalls id id id id
  | master on => exact covered_exec hc hcalls id id id id
  | unlessTask => exact covered_exec hc hcalls id id id id
  | noTask => exact covered_exec hc hcalls id id id id
  | setErr err => exact covered_exec hc hcalls id id id id

theorem covered_call (hc : Covered s) (c : Call) : Covered (step s (.call i c)) := by
  rcases hcalls : s.calls i with _ | ⟨a, rest⟩
  · simp only [step, hcalls]
    intro h
    rcases hc h with h | h | h
    · exact Or.inl h
    · exact Or.inr (Or.inl h)
    · obtain ⟨j, hj⟩ := h
      have hne : j ≠ i := by
        rintro rfl
        rw [hcalls] at hj
        exact hj
      exact Or.inr (Or.inr ⟨j, due_other hne hj⟩)
  · simpa only [step, hcalls] using hc

theorem covered_manager (hc : Covered s) (o : Outcome) : Covered (step s (.manager o)) := by
  obtain ⟨hcfg, hrun, -, hstale⟩ := managerStep_spec (t := s.shared) (m := s.manager) o rfl
  intro h
  have h' : Stale (managerStep s.shared s.manager o).2 s.shared.cfg := hcfg ▸ h
  obtain ⟨hold, hflag⟩ := hstale h'
  rcases hc hold with h | h | h
  · exact Or.inl (hflag.trans h)
  · exact Or.inr (Or.inl (hrun.trans h))
  · exact Or.inr (Or.inr h)

theorem allShaped_update (hs : AllShaped s) {l : List Access} (hl : Shaped l) (j : ι) :
    Shaped (Function.update s.calls i l j) := by
  by_cases hj : j = i
  · rw [hj, Function.update_self]
    exact hl
  · rw [Function.update_of_ne hj]
    exact hs j

theorem allShaped_step (hs : AllShaped s) (e : Event ι) : AllShaped (step s e) := by
  cases e with
  | call i c =>
    rcases hcalls : s.calls i with _ | ⟨a, rest⟩
    · simp only [step, hcalls]
      exact allShaped_update hs (shaped_accesses c)
    · simpa only [step, hcalls] using hs
  | caller i made =>
    rcases hcalls : s.calls i with _ | ⟨a, rest⟩
    · simpa only [step, hcalls] using hs
    · rw [step_caller hcalls]
      exact allShaped_update hs (shaped_exec (hcalls ▸ hs i) s.shared made)
  | manager o => exact hs

theorem covered_step (hs : AllShaped s) (hc : Covered s) (hsafe : Safe s e) : Covered (step s e) := by
  cases e with
  | call i c => exact covered_call hc c
  | caller i made =>
    rcases hcalls : s.calls i with _ | ⟨a, rest⟩
    · simpa only [step, hcalls] using hc
    · exact covered_caller hc hcalls (hcalls ▸ hs i) hsafe
  | manager o => exact covered_manager hc o

/-- An access that is not safe leaves the manager with an old copy and nothing that tells it. -/
theorem not_covered_step (hs : AllShaped s) (hsafe : ¬ Safe s e) : ¬ Covered (step s e) := by
  cases e with
  | call i c => exact absurd trivial hsafe
  | manager o => exact absurd trivial hsafe
  | caller i made =>
    rcases hcalls : s.calls i with _ | ⟨a, rest⟩
    · simp only [Safe, hcalls, not_true_eq_false] at hsafe
    · have hshape : Shaped (a :: rest) := hcalls ▸ hs i
      simp only [Safe, hcalls] at hsafe
      rw [step_caller hcalls]
      have hothers {l : List Access} (hl : ¬ Due l) (h : ∃ j, Due (Function.update s.calls i l j)) :
          ∃ j, j ≠ i ∧ Due (s.calls j) := by
        obtain ⟨j, hj⟩ := h
        by_cases hji : j = i
        · rw [hji, Function.update_self] at hj
          exact absurd hj hl
        · rw [Function.update_of_ne hji] at hj
          exact ⟨j, hji, hj⟩
      intro hc
      cases a with
      | wantRun on =>
        cases on with
        | true =>
          refine hsafe fun h => ?_
          rcases hc h with h | h | h
          · exact Or.inl h
          · exact absurd h Bool.true_eq_false.mp
          · exact Or.inr (hothers hshape.1 h)
        | false => exact hsafe trivial
      | wipe f =>
        refine hsafe fun h => ?_
        rcases hc h with h | h | h
        · exact Or.inl h
        · exact Or.inr (Or.inl h)
        · exact Or.inr (Or.inr (hothers hshape.1 h))
      | _ => exact hsafe trivial

end Steps

section Ordered

variable {s : System ι} {e : Event ι} {i : ι} {a : Access} {rest : List Access} {t : Shared}
  {made : Bool}

/-- A task is created only where there is none. -/
def Sole (s : System ι) : Event ι → Prop
  | .caller i _ => (s.calls i).head? = some .create → s.manager.pc = .absent
  | _ => True

theorem covered_init (cfg : TunnelCfg) (master : Bool) : Covered (init cfg master : System ι) :=
  fun h => absurd h (not_stale fun _ => id)

theorem allShaped_init (cfg : TunnelCfg) (master : Bool) : AllShaped (init cfg master : System ι) :=
  fun _ => trivial

/-- A call goes on only while no other task is in one. -/
def Alone (s : System ι) : Event ι → Prop
  | .call i _ | .caller i _ => ∀ j, j ≠ i → s.calls j = []
  | .manager _ => True

/-- What an access of a call follows. -/
def Linked : List Access → Prop
  | a :: b :: rest =>
    (b = .wantRun true → a = .reconfig) ∧ (b = .create → a = .unlessTask) ∧ Linked (b :: rest)
  | _ => True

theorem Linked.tail (h : Linked (a :: rest)) : Linked rest := by
  cases rest with
  | nil => trivial
  | cons b rest => exact h.2.2

theorem exec_wantRun (h : ∀ on, a ≠ .wantRun on) : (exec t made rest a).1.wantRun = t.wantRun := by
  cases a with
  | wantRun on => exact absurd rfl (h on)
  | need n err => rw [exec_need]
  | create => rw [exec_create]
  | _ => rfl

theorem exec_task (hc : a ≠ .create ∨ made = false) (hn : a ≠ .noTask) :
    (exec t made rest a).1.task = t.task := by
  cases a with
  | noTask => exact absurd rfl hn
  | need n err => rw [exec_need]
  | create =>
    have hmade : made = false := hc.resolve_left (not_not_intro rfl)
    rw [exec_create, hmade, Bool.false_or]
  | _ => rfl

/-- A call that goes on alone: how it has begun says what the flags are. -/
structure Ordered (s : System ι) : Prop where
  covered : Covered s
  shaped : AllShaped s
  linked : ∀ i, Linked (s.calls i)
  alone : ∀ i j, s.calls i ≠ [] → s.calls j ≠ [] → i = j
  starts : ∀ i rest, s.calls i = .wantRun true :: rest →
    Stale s.manager s.shared.cfg → s.shared.reconfig = true
  stopped : ∀ i f, .wipe f ∈ s.calls i → .wantRun true ∉ s.calls i ∧
    (s.shared.wantRun = false ∨ (s.calls i).head? = some (.wantRun false))
  creates : ∀ i, (s.calls i).head? = some .create → s.shared.task = false
  fails : ∀ i, .noTask ∈ s.calls i → .create ∉ s.calls i ∧ s.shared.task = false
  absent : s.shared.task = false → s.manager.pc = .absent

theorem safe_of_ordered (hs : Ordered s) (e : Event ι) : Safe s e := by
  cases e with
  | call i c => trivial
  | manager o => trivial
  | caller i made =>
    simp only [Safe]
    split
    next rest hcalls => exact fun h => Or.inl (hs.starts i rest hcalls h)
    next f rest hcalls =>
      obtain ⟨-, h | h⟩ := hs.stopped i f (by rw [hcalls]; exact List.mem_cons_self)
      · exact fun _ => Or.inr (Or.inl h)
      · rw [hcalls] at h
        cases h
    · trivial

theorem sole_of_ordered (hs : Ordered s) (e : Event ι) : Sole s e := by
  cases e with
  | call i c => trivial
  | manager o => trivial
  | caller i made => exact fun h => hs.absent (hs.creates i h)

theorem accesses_begin (c : Call) : Linked c.accesses ∧
    c.accesses.head? ≠ some (.wantRun true) ∧ c.accesses.head? ≠ some .create ∧
    .noTask ∉ c.accesses ∧ ∀ f, .wipe f ∈ c.accesses →
      .wantRun true ∉ c.accesses ∧ c.accesses.head? = some (.wantRun false) := by
  cases c with
  | set key val =>
    rw [Call.accesses, ratholeSet]
    rcases fieldOf key with _ | f
    · simp [Linked]
    · cases f <;> simp [Linked]
  | start => simp [Call.accesses, ratholeStart, configured, Linked]
  | stop => simp [Call.accesses, ratholeStop, Linked]
  | clear => simp [Call.accesses, ratholeClear, ratholeStop, Field.all, Linked]
  | setEnabled on =>
    cases on with
    | true => simp [Call.accesses, ratholeSetEnabled, ratholeStart, configured, Linked]
    | false => simp [Call.accesses, ratholeSetEnabled, ratholeStop, Linked]
  | boot => simp [Call.accesses, ratholeInit, ratholeStart, configured, Linked]

theorem exec_mem {x : Access} (hx : x ∈ (exec t made rest a).2) :
    x ∈ rest ∨ x = .reconfig ∨ x = .ifRunning ∨ x = .wantRun false ∨
      (∃ err, x = .setErr err) ∨ a = .create ∧ x = .noTask := by
  rcases exec_cases t made rest a with h | h | ⟨-, h⟩ | ⟨-, h⟩ | ⟨-, h⟩ | ⟨ha, -, h⟩ <;>
    rw [h] at hx
  · cases hx
  · exact Or.inl hx
  · rcases List.mem_cons.mp hx with h | h
    · exact Or.inr (Or.inl h)
    · exact Or.inl h
  · rcases List.mem_cons.mp hx with h | h
    · exact Or.inr (Or.inr (Or.inl h))
    · exact Or.inl h
  · simp only [List.mem_cons] at hx
    rcases hx with h | h | h
    · exact Or.inr (Or.inr (Or.inr (Or.inl h)))
    · exact Or.inr (Or.inl h)
    · exact Or.inl h
  · simp only [List.mem_cons, List.not_mem_nil, or_false] at hx
    rcases hx with h | h | h
    · exact Or.inr (Or.inr (Or.inr (Or.inl h)))
    · exact Or.inr (Or.inr (Or.inr (Or.inr (Or.inr ⟨ha, h⟩))))
    · exact Or.inr (Or.inr (Or.inr (Or.inr (Or.inl ⟨_, h⟩))))

theorem exec_kept {x : Access} (hx : x ∈ (exec t made rest a).2)
    (h : x = .create ∨ x = .wantRun true ∨ ∃ f, x = .wipe f) : x ∈ rest := by
  rcases exec_mem hx with hx | rfl | rfl | rfl | ⟨err, rfl⟩ | ⟨-, rfl⟩
  · exact hx
  all_goals simp at h

theorem linked_exec (h : Linked (a :: rest)) (t : Shared) (made : Bool) :
    Linked (exec t made rest a).2 := by
  have hcons {b : Access} (ha : a ≠ .reconfig ∧ a ≠ .unlessTask) : Linked (b :: rest) := by
    cases rest with
    | nil => trivial
    | cons c rest =>
      exact ⟨fun hc => absurd (h.1 hc) ha.1, fun hc => absurd (h.2.1 hc) ha.2, h.2.2⟩
  rcases exec_cases t made rest a with h' | h' | ⟨ha, h'⟩ | ⟨ha, h'⟩ | ⟨ha, h'⟩ | ⟨-, -, h'⟩ <;>
    rw [h']
  · trivial
  · exact h.tail
  · exact hcons (by rw [ha]; exact ⟨nofun, nofun⟩)
  · exact hcons (by rw [ha]; exact ⟨nofun, nofun⟩)
  · exact ⟨nofun, nofun, hcons (by rw [ha]; exact ⟨nofun, nofun⟩)⟩
  · exact ⟨nofun, nofun, nofun, nofun, trivial⟩

theorem head_exec {b : Access} (hb : (exec t made rest a).2.head? = some b) :
    (exec t made rest a).2 = rest ∨ b = .reconfig ∨ b = .ifRunning ∨ b = .wantRun false := by
  rcases exec_cases t made rest a with h | h | ⟨-, h⟩ | ⟨-, h⟩ | ⟨-, h⟩ | ⟨-, -, h⟩ <;>
    rw [h] at hb
  · cases hb
  · exact Or.inl h
  · exact Or.inr (Or.inl (Option.some.inj hb).symm)
  · exact Or.inr (Or.inr (Or.inl (Option.some.inj hb).symm))
  · exact Or.inr (Or.inr (Or.inr (Option.some.inj hb).symm))
  · exact Or.inr (Or.inr (Or.inr (Option.some.inj hb).symm))

/-- Only a call that is stopping the tunnel wipes the configuration. -/
theorem wantRun_exec {f : Field} (hs : Ordered s) (hcalls : s.calls i = a :: rest) (hf : .wipe f ∈ rest) :
    .wantRun true ∉ rest ∧ (exec s.shared made rest a).1.wantRun = false := by
  obtain ⟨hno, hrun⟩ := hs.stopped i f (by rw [hcalls]; exact List.mem_cons_of_mem a hf)
  rw [hcalls] at hno hrun
  refine ⟨fun h => hno (List.mem_cons_of_mem a h), ?_⟩
  by_cases ha : ∃ on, a = .wantRun on
  · obtain ⟨on, rfl⟩ := ha
    cases on with
    | true => exact absurd List.mem_cons_self hno
    | false => rfl
  · rcases hrun with h | h
    · rw [exec_wantRun fun on h => ha ⟨on, h⟩]
      exact h
    · exact absurd ⟨false, Option.some.inj h⟩ ha

/-- A task that is to be created, or that could not be created, is not there. -/
theorem task_exec (hs : Ordered s) (hcalls : s.calls i = a :: rest)
    (h : (exec s.shared made rest a).2.head? = some .create) :
    (exec s.shared made rest a).1.task = false := by
  have hlinked : Linked (a :: rest) := hcalls ▸ hs.linked i
  rcases head_exec h with hrest | h | h | h
  · rw [hrest] at h
    cases rest with
    | nil => cases h
    | cons b rest =>
      obtain rfl : b = .create := Option.some.inj h
      obtain rfl := hlinked.2.1 rfl
      by_cases htask : s.shared.task = true
      · simp only [exec, if_pos htask] at hrest
        cases hrest
      · exact Bool.of_not_eq_true htask
  · cases h
  · cases h
  · cases h

theorem noTask_exec (hs : Ordered s) (hcalls : s.calls i = a :: rest)
    (h : .noTask ∈ (exec s.shared made rest a).2) :
    .create ∉ (exec s.shared made rest a).2 ∧ (exec s.shared made rest a).1.task = false := by
  have hfails (h : .noTask ∈ a :: rest) := hcalls ▸ hs.fails i (hcalls ▸ h)
  rcases exec_mem h with h | h | h | h | ⟨err, h⟩ | ⟨rfl, -⟩
  · obtain ⟨hno, htask⟩ := hfails (List.mem_cons_of_mem a h)
    refine ⟨fun hc => hno (List.mem_cons_of_mem a (exec_kept hc (Or.inl rfl))), ?_⟩
    by_cases ha : a = .noTask
    · rw [ha]
      rfl
    · rw [exec_task (Or.inl fun hc => hno (hc ▸ List.mem_cons_self)) ha]
      exact htask
  · cases h
  · cases h
  · cases h
  · cases h
  · have htask : s.shared.task = false := hs.creates i (by rw [hcalls]; rfl)
    cases made with
    | true =>
      have hno := (hfails (List.mem_cons_of_mem _ h)).1
      exact absurd List.mem_cons_self hno
    | false => exact ⟨by simp [exec], htask⟩

theorem absent_exec (hs : Ordered s) (hcalls : s.calls i = a :: rest)
    (h : (exec s.shared made rest a).1.task = false) : (s.manager.created a made).pc = .absent := by
  have hkept : ¬ (a = .create ∧ made = true) := by
    rintro ⟨rfl, rfl⟩
    cases h
  rw [Manager.created, if_neg hkept]
  by_cases ha : a = .noTask
  · exact hs.absent (hs.fails i (by rw [hcalls, ha]; exact List.mem_cons_self)).2
  · refine hs.absent ?_
    rwa [exec_task ?_ ha] at h
    by_cases hc : a = .create
    · exact Or.inr (Bool.of_not_eq_true fun hm => hkept ⟨hc, hm⟩)
    · exact Or.inl hc

theorem starts_exec (hs : Ordered s) (hcalls : s.calls i = a :: rest) {l : List Access}
    (h : (exec s.shared made rest a).2 = .wantRun true :: l) :
    (exec s.shared made rest a).1.reconfig = true := by
  have hlinked : Linked (a :: rest) := hcalls ▸ hs.linked i
  rcases head_exec (b := .wantRun true) (by rw [h]; rfl) with hrest | h | h | h
  · rw [hrest] at h
    subst h
    obtain rfl := hlinked.1 rfl
    rfl
  · cases h
  · cases h
  · cases h

theorem ordered_init (cfg : TunnelCfg) (master : Bool) : Ordered (init cfg master : System ι) where
  covered := covered_init cfg master
  shaped := allShaped_init cfg master
  linked _ := trivial
  alone _ _ h := absurd rfl h
  starts _ _ h := nomatch h
  stopped _ _ h := nomatch h
  creates _ h := nomatch h
  fails _ h := nomatch h
  absent _ := rfl

end Ordered

section Runs

variable [DecidableEq ι] {s : System ι} {e : Event ι} {i : ι} {made : Bool}

/-- However the accesses of any number of calling tasks and of the manager follow each other, a copy that
differs from the configuration goes with a sign that the manager will see, if and only if the two critical
accesses are safe wherever they happen. -/
theorem copy_covered_iff {cfg : TunnelCfg} {master : Bool} {es : List (Event ι)}
    (hsole : Along step Sole (init cfg master) es) :
    Always step Covered (init cfg master) es ↔ Along step Safe (init cfg master) es := by
  apply always_iff_along_of_along (I := fun s => AllShaped s ∧ Covered s) (E := Sole)
  · exact fun s hs => hs.2
  · exact fun s e hs _ hsafe => ⟨allShaped_step hs.1 e, covered_step hs.1 hs.2 hsafe⟩
  · exact fun s e hs _ hsafe => not_covered_step hs.1 hsafe
  · exact ⟨allShaped_init cfg master, covered_init cfg master⟩
  · exact hsole

/-- What holds of the calling task and of all that are in no call holds of every task. -/
theorem forall_update {l : List Access} {P : List Access → Prop}
    (hothers : ∀ j, j ≠ i → s.calls j = []) (hnil : P []) (hl : P l) (j : ι) : P (Function.update s.calls i l j) := by
  by_cases hj : j = i
  · rwa [hj, Function.update_self]
  · rwa [Function.update_of_ne hj, hothers j hj]

theorem alone_update {l : List Access} (hothers : ∀ j, j ≠ i → s.calls j = []) {j k : ι}
    (hj : Function.update s.calls i l j ≠ []) (hk : Function.update s.calls i l k ≠ []) : j = k := by
  have honly {j : ι} (hj : Function.update s.calls i l j ≠ []) : j = i := by
    by_contra hne
    rw [Function.update_of_ne hne, hothers j hne] at hj
    exact hj rfl
  rw [honly hj, honly hk]

theorem ordered_call (hs : Ordered s) (c : Call) (halone : Alone s (.call i c)) :
    Ordered (step s (.call i c)) := by
  rcases hcalls : s.calls i with _ | ⟨a, rest⟩
  · obtain ⟨hlinked, hstart, hcreate, hfail, hwipe⟩ := accesses_begin c
    have hstep : step s (.call i c) = { s with calls := Function.update s.calls i c.accesses } := by
      simp only [step, hcalls]
    have hcovered := covered_call hs.covered c (i := i)
    have hshaped := allShaped_step hs.shaped (.call i c)
    rw [hstep] at hcovered hshaped ⊢
    refine ⟨hcovered, hshaped, ?_, fun j k => alone_update halone, ?_, ?_, ?_, ?_, hs.absent⟩
    · exact forall_update halone trivial hlinked
    · refine forall_update (P := fun l => ∀ rest, l = .wantRun true :: rest → _) halone nofun ?_
      intro rest hrest
      rw [hrest] at hstart
      exact absurd rfl hstart
    · refine forall_update (P := fun l => ∀ f, .wipe f ∈ l → .wantRun true ∉ l ∧
        (s.shared.wantRun = false ∨ l.head? = some (.wantRun false))) halone nofun ?_
      exact fun f hf => ⟨(hwipe f hf).1, Or.inr (hwipe f hf).2⟩
    · exact forall_update (P := fun l => l.head? = some .create → _) halone nofun
        fun h => absurd h hcreate
    · exact forall_update (P := fun l => .noTask ∈ l → .create ∉ l ∧ _) halone nofun
        fun h => absurd h hfail
  · simpa only [step, hcalls] using hs

theorem ordered_caller (hs : Ordered s) (halone : Alone s (.caller i made)) :
    Ordered (step s (.caller i made)) := by
  rcases hcalls : s.calls i with _ | ⟨a, rest⟩
  · simpa only [step, hcalls] using hs
  · have hlinked : Linked (a :: rest) := hcalls ▸ hs.linked i
    have hcovered := covered_step hs.shaped hs.covered (safe_of_ordered hs (.caller i made))
    have hshaped := allShaped_step hs.shaped (.caller i made)
    rw [step_caller hcalls] at hcovered hshaped ⊢
    refine ⟨hcovered, hshaped, ?_, fun j k => alone_update halone, ?_, ?_, ?_, ?_,
      absent_exec hs hcalls⟩
    · exact forall_update halone trivial (linked_exec hlinked s.shared made)
    · exact forall_update (P := fun l => ∀ rest, l = .wantRun true :: rest → _ → _) halone nofun
        fun l h _ => starts_exec hs hcalls h
    · refine forall_update (P := fun l => ∀ f, .wipe f ∈ l → .wantRun true ∉ l ∧
        (_ ∨ l.head? = some (.wantRun false))) halone nofun fun f hf => ?_
      have hrest : .wipe f ∈ rest := exec_kept hf (Or.inr (Or.inr ⟨f, rfl⟩))
      obtain ⟨hno, hrun⟩ : Access.wantRun true ∉ rest ∧
          (exec s.shared made rest a).1.wantRun = false := wantRun_exec hs hcalls hrest
      exact ⟨fun h => hno (exec_kept h (Or.inr (Or.inl rfl))), Or.inl hrun⟩
    · exact forall_update (P := fun l => l.head? = some .create → _) halone nofun (task_exec hs hcalls)
    · exact forall_update (P := fun l => .noTask ∈ l → .create ∉ l ∧ _) halone nofun
        (noTask_exec hs hcalls)

theorem ordered_manager (hs : Ordered s) (o : Outcome) : Ordered (step s (.manager o)) := by
  obtain ⟨hcfg, hrun, htask, hstale⟩ := managerStep_spec (t := s.shared) (m := s.manager) o rfl
  refine ⟨covered_manager hs.covered o, hs.shaped, hs.linked, hs.alone, ?_, ?_, ?_, ?_, ?_⟩
  · intro i rest hcalls h
    have h' : Stale (managerStep s.shared s.manager o).2 s.shared.cfg := hcfg ▸ h
    obtain ⟨hold, hflag⟩ := hstale h'
    exact hflag.trans (hs.starts i rest hcalls hold)
  · intro i f hf
    obtain ⟨hno, h⟩ := hs.stopped i f hf
    exact ⟨hno, h.imp_left hrun.trans⟩
  · exact fun i h => htask.trans (hs.creates i h)
  · exact fun i h => ⟨(hs.fails i h).1, htask.trans (hs.fails i h).2⟩
  · intro h
    have habsent := hs.absent (htask.symm.trans h)
    change (managerStep s.shared s.manager o).2.pc = .absent
    simp only [managerStep, habsent]

theorem ordered_step (hs : Ordered s) (halone : Alone s e) : Ordered (step s e) := by
  cases e with
  | call i c => exact ordered_call hs c halone
  | caller i made => exact ordered_caller hs halone
  | manager o => exact ordered_manager hs o

/-- No call is under way, and the manager would go on with the copy that it has. -/
def GoesOn (s : System ι) : Prop :=
  (∀ i, s.calls i = []) ∧ s.shared.wantRun = true ∧ s.shared.reconfig = false

/-- As long as calls do not overlap, and whatever the manager does in between, a tunnel that goes on does so
with the texts of the configuration there is, and there is never a second manager. -/
theorem goes_on_fresh {cfg : TunnelCfg} {master : Bool} {es : List (Event ι)}
    (halone : Along step Alone (init cfg master) es) :
    Always step (fun s => GoesOn s → ¬ Stale s.manager s.shared.cfg) (init cfg master) es ∧
      Along step Sole (init cfg master) es := by
  have hstep : ∀ (s : System ι) e, Ordered s → Alone s e → Ordered (step s e) :=
    fun s e => ordered_step
  constructor
  · refine (always_of_along hstep (ordered_init cfg master) halone).mono fun s hs hgo hstale => ?_
    obtain ⟨hidle, hrun, hflag⟩ := hgo
    rcases hs.covered hstale with h | h | ⟨i, h⟩
    · rw [hflag] at h
      cases h
    · rw [hrun] at h
      cases h
    · rw [hidle i] at h
      exact h
  · exact along_of_inv hstep (fun s e hs _ => sole_of_ordered hs e) (ordered_init cfg master) halone

end Runs

section Tasks

inductive Task where
  | loop
  | mqtt
  deriving DecidableEq

instance {P : Task → Prop} [DecidablePred P] : Decidable (∀ i, P i) :=
  decidable_of_iff (P .loop ∧ P .mqtt) ⟨fun h i => i.casesOn h.1 h.2, fun h => ⟨h .loop, h .mqtt⟩⟩

instance {P : Task → Prop} [DecidablePred P] : Decidable (∃ i, P i) :=
  decidable_of_iff (P .loop ∨ P .mqtt) ⟨fun h => h.elim (⟨_, ·⟩) (⟨_, ·⟩),
    fun ⟨i, h⟩ => i.casesOn (motive := fun i => P i → P .loop ∨ P .mqtt) Or.inl Or.inr h⟩

instance (s : System Task) (e : Event Task) : Decidable (Alone s e) := by
  cases e with
  | call i _ | caller i _ => exact inferInstanceAs (Decidable (∀ j, j ≠ i → s.calls j = []))
  | manager _ => exact isTrue trivial

instance (s : System Task) (e : Event Task) : Decidable (Sole s e) := by
  cases e with
  | caller i _ =>
    exact inferInstanceAs (Decidable ((s.calls i).head? = some .create → s.manager.pc = .absent))
  | call _ _ | manager _ => exact isTrue trivial

instance (s : System Task) : Decidable (GoesOn s) :=
  inferInstanceAs (Decidable (_ ∧ _ ∧ _))

instance (s : System Task) : Decidable (Covered s) :=
  inferInstanceAs (Decidable (_ → _ ∨ _ ∨ _))

def sample : TunnelCfg := ⟨ascii "h:1", ascii "t", ascii "s", ascii "l:1", true, true, 1⟩

/-- The accesses of a task, and steps of the manager with nothing in its way. -/
def callers (i : Task) (n : ℕ) : List (Event Task) := List.replicate n (.caller i true)

def managers (n : ℕ) : List (Event Task) := List.replicate n (.manager ⟨.pass, none, none, false⟩)

def moveLocal : Event Task := .call .mqtt (.set (ascii "local") (ascii "l:2"))

/-- The tunnel is moved while it runs. -/
def moved : List (Event Task) :=
  .call .loop .boot :: callers .loop 17 ++ managers 16 ++ moveLocal :: callers .mqtt 3 ++ managers 24

theorem moved_tunnel_fresh :
    GoesOn (final step (init sample true) moved) ∧
      ¬ Stale (final step (init sample true) moved).manager
        (final step (init sample true) moved).shared.cfg :=
  ⟨by decide +kernel, (goes_on_fresh (by decide +kernel)).1.final (by decide +kernel)⟩

/-- Between the two stores of a start, the manager takes its copy and another task moves the tunnel. -/
def overlapped : List (Event Task) :=
  .call .loop .boot :: callers .loop 17 ++ managers 3 ++ .call .mqtt .stop :: callers .mqtt 2 ++
    .call .loop .start :: callers .loop 7 ++ managers 8 ++ moveLocal :: callers .mqtt 2 ++
    callers .loop 2 ++ managers 4

theorem overlapped_start_stale :
    GoesOn (final step (init sample true) overlapped) ∧
      Stale (final step (init sample true) overlapped).manager
        (final step (init sample true) overlapped).shared.cfg ∧
      ¬ Along step Safe (init sample true) overlapped :=
  ⟨by decide +kernel, by decide +kernel,
    fun h => absurd ((copy_covered_iff (by decide +kernel)).mpr h).final (by decide +kernel)⟩

end Tasks

end AtNode.RatholeTasks
