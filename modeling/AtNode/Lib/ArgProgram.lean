import Mathlib.Data.List.Basic

/-!
# Programs that read arguments

A program reads arguments by their index, reads and replaces a state, and ends with a value or stops
for good. An argument that is not there cannot be read: the program faults.

`Confined n argv p` says that on the way `p` takes with the arguments `argv`, from whatever state,
every index it reads is below `n`. A confined program runs alike on all arguments that agree
below `n`.
-/

namespace AtNode

inductive ArgProgram (τ σ ε α : Type) where
  | ret (a : α)
  | stop (e : ε)
  | arg (i : ℕ) (next : τ → ArgProgram τ σ ε α)
  | get (next : σ → ArgProgram τ σ ε α)
  | put (s : σ) (next : ArgProgram τ σ ε α)

namespace ArgProgram

variable {τ σ ε α β : Type}

def bind (f : α → ArgProgram τ σ ε β) : ArgProgram τ σ ε α → ArgProgram τ σ ε β
  | .ret a => f a
  | .stop e => .stop e
  | .arg i next => .arg i fun t => (next t).bind f
  | .get next => .get fun s => (next s).bind f
  | .put s next => .put s (next.bind f)

instance : Monad (ArgProgram τ σ ε) where
  pure := .ret
  bind p f := p.bind f

instance : LawfulMonad (ArgProgram τ σ ε) :=
  LawfulMonad.mk' (ArgProgram τ σ ε)
    (by
      intro α p
      change p.bind .ret = p
      induction p with
      | ret a => rfl
      | stop e => rfl
      | arg i next ih => exact congrArg _ (funext ih)
      | get next ih => exact congrArg _ (funext ih)
      | put s next ih => exact congrArg _ ih)
    (fun _ _ => rfl)
    (by
      intro α β γ p f g
      change (p.bind f).bind g = p.bind fun a => (f a).bind g
      induction p with
      | ret a => rfl
      | stop e => rfl
      | arg i next ih => exact congrArg _ (funext ih)
      | get next ih => exact congrArg _ (funext ih)
      | put s next ih => exact congrArg _ ih)

/-- Read an argument. -/
def ask (i : ℕ) : ArgProgram τ σ ε τ := .arg i .ret

def act (f : σ → β × σ) : ArgProgram τ σ ε β := .get fun s => .put (f s).2 (.ret (f s).1)

def edit (f : σ → σ) : ArgProgram τ σ ε Unit := .get fun s => .put (f s) (.ret ())

/-- The arguments from `i` on, `k` of them. -/
def askMany : ℕ → ℕ → ArgProgram τ σ ε (List τ)
  | 0, _ => pure []
  | k + 1, i => do
    let t ← ask i
    let ts ← askMany k (i + 1)
    pure (t :: ts)

inductive Ending (ε α : Type) where
  | value (a : α)
  | stopped (e : ε)
  | fault
  deriving DecidableEq

structure Run (σ ε α : Type) where
  ending : Ending ε α
  state : σ
  reads : List ℕ

def run (argv : ℕ → Option τ) : ArgProgram τ σ ε α → σ → Run σ ε α
  | .ret a, s => ⟨.value a, s, []⟩
  | .stop e, s => ⟨.stopped e, s, []⟩
  | .arg i next, s =>
    match argv i with
    | none => ⟨.fault, s, [i]⟩
    | some t => ⟨((next t).run argv s).ending, ((next t).run argv s).state,
        i :: ((next t).run argv s).reads⟩
  | .get next, s => (next s).run argv s
  | .put s next, _ => next.run argv s

def Confined (n : ℕ) (argv : ℕ → Option τ) : ArgProgram τ σ ε α → Prop
  | .ret _ => True
  | .stop _ => True
  | .arg i next => i < n ∧ ∀ t, argv i = some t → (next t).Confined n argv
  | .get next => ∀ s, (next s).Confined n argv
  | .put _ next => next.Confined n argv

section Rules

variable {n : ℕ} {argv argv' : ℕ → Option τ} {p q : ArgProgram τ σ ε α}
  {f : α → ArgProgram τ σ ε β}

@[simp] theorem confined_pure (a : α) : Confined n argv (pure a : ArgProgram τ σ ε α) := trivial

@[simp] theorem confined_stop (e : ε) : Confined n argv (.stop e : ArgProgram τ σ ε α) := trivial

@[simp] theorem confined_act (g : σ → β × σ) :
    Confined n argv (act g : ArgProgram τ σ ε β) := fun _ => trivial

@[simp] theorem confined_edit (g : σ → σ) :
    Confined n argv (edit g : ArgProgram τ σ ε Unit) := fun _ => trivial

theorem Confined.bind (hp : p.Confined n argv) (hf : ∀ a, (f a).Confined n argv) :
    (p >>= f).Confined n argv := by
  change (p.bind f).Confined n argv
  induction p with
  | ret a => exact hf a
  | stop e => trivial
  | arg i next ih => exact ⟨hp.1, fun t ht => ih t (hp.2 t ht)⟩
  | get next ih => exact fun s => ih s (hp s)
  | put s next ih => exact ih hp

@[simp] theorem confined_map (g : α → β) :
    (g <$> p).Confined n argv ↔ p.Confined n argv := by
  rw [← bind_pure_comp]
  change (p.bind fun a => .ret (g a)).Confined n argv ↔ _
  induction p with
  | ret a => rfl
  | stop e => rfl
  | arg i next ih => exact and_congr_right fun _ => forall_congr' fun t => forall_congr' fun _ => ih t
  | get next ih => exact forall_congr' ih
  | put s next ih => exact ih

/-- What follows a read may use what was read. -/
@[simp] theorem confined_ask_bind {i : ℕ} {f : τ → ArgProgram τ σ ε β} :
    (ask i >>= f).Confined n argv ↔ i < n ∧ ∀ t, argv i = some t → (f t).Confined n argv := Iff.rfl

@[simp] theorem confined_act_bind {g : σ → α × σ} :
    (act g >>= f).Confined n argv ↔ ∀ s, (f (g s).1).Confined n argv := Iff.rfl

@[simp] theorem confined_edit_bind {g : σ → σ} {f : Unit → ArgProgram τ σ ε β} :
    (edit g >>= f).Confined n argv ↔ ∀ _ : σ, (f ()).Confined n argv := Iff.rfl

@[simp] theorem confined_get {next : σ → ArgProgram τ σ ε α} :
    (ArgProgram.get next).Confined n argv ↔ ∀ s, (next s).Confined n argv := Iff.rfl

@[simp] theorem confined_ite {c : Prop} [Decidable c] :
    (if c then p else q).Confined n argv ↔ (c → p.Confined n argv) ∧ (¬ c → q.Confined n argv) := by
  by_cases h : c <;> simp [h]

@[simp] theorem confined_ite_bind {c : Prop} [Decidable c] :
    ((if c then p else q) >>= f).Confined n argv ↔
      (c → (p >>= f).Confined n argv) ∧ (¬ c → (q >>= f).Confined n argv) := by
  by_cases h : c <;> simp [h]

theorem confined_askMany {k i : ℕ} (h : i + k ≤ n) :
    (askMany k i : ArgProgram τ σ ε (List τ)).Confined n argv := by
  induction k generalizing i with
  | zero => trivial
  | succ k ih =>
    apply confined_ask_bind.mpr
    refine ⟨by omega, fun t _ => ?_⟩
    exact (ih (by omega)).bind fun ts => trivial

/-- A confined program sees no argument from `n` on. -/
theorem Confined.run_congr (hp : p.Confined n argv) (h : ∀ i < n, argv i = argv' i) (s : σ) :
    p.run argv s = p.run argv' s := by
  induction p generalizing s with
  | ret a => rfl
  | stop e => rfl
  | arg i next ih =>
    have hi : argv i = argv' i := h i hp.1
    cases ht : argv i with
    | none => simp only [run, ht, ← hi]
    | some t =>
      have hnext := ih t (hp.2 t ht) s
      simp only [run, ht, ← hi, hnext]
  | get next ih => exact ih s (hp s) s
  | put s' next ih => exact ih hp s'

theorem Confined.lt_of_mem_reads (hp : p.Confined n argv) {s : σ} {i : ℕ}
    (hi : i ∈ (p.run argv s).reads) : i < n := by
  induction p generalizing s with
  | ret a => simp [run] at hi
  | stop e => simp [run] at hi
  | arg j next ih =>
    cases ht : argv j with
    | none =>
      have hij : i = j := by simpa [run, ht] using hi
      exact hij ▸ hp.1
    | some t =>
      have hi' : i = j ∨ i ∈ ((next t).run argv s).reads := by simpa [run, ht] using hi
      rcases hi' with rfl | hi'
      · exact hp.1
      · exact ih t (hp.2 t ht) hi'
  | get next ih => exact ih s (hp s) hi
  | put s' next ih => exact ih hp hi

theorem run_bind (argv : ℕ → Option τ) (p : ArgProgram τ σ ε α) (f : α → ArgProgram τ σ ε β)
    (s : σ) :
    (p >>= f).run argv s =
      match (p.run argv s).ending with
      | .value a => ⟨((f a).run argv (p.run argv s).state).ending,
          ((f a).run argv (p.run argv s).state).state,
          (p.run argv s).reads ++ ((f a).run argv (p.run argv s).state).reads⟩
      | .stopped e => ⟨.stopped e, (p.run argv s).state, (p.run argv s).reads⟩
      | .fault => ⟨.fault, (p.run argv s).state, (p.run argv s).reads⟩ := by
  change (p.bind f).run argv s = _
  induction p generalizing s with
  | ret a => rfl
  | stop e => rfl
  | arg i next ih =>
    cases ht : argv i with
    | none => simp only [bind, run, ht]
    | some t =>
      simp only [bind, run, ht, ih t s]
      cases ((next t).run argv s).ending <;> rfl
  | get next ih => exact ih s s
  | put s' next ih => exact ih s'

@[simp] theorem run_pure (argv : ℕ → Option τ) (a : α) (s : σ) :
    (pure a : ArgProgram τ σ ε α).run argv s = ⟨.value a, s, []⟩ := rfl

@[simp] theorem run_edit (argv : ℕ → Option τ) (g : σ → σ) (s : σ) :
    (edit g : ArgProgram τ σ ε Unit).run argv s = ⟨.value (), g s, []⟩ := rfl

@[simp] theorem run_edit_bind (argv : ℕ → Option τ) (g : σ → σ) (f : Unit → ArgProgram τ σ ε β)
    (s : σ) : (edit g >>= f).run argv s = (f ()).run argv (g s) := rfl

theorem run_ask_bind_none {argv : ℕ → Option τ} {i : ℕ} (h : argv i = none)
    (f : τ → ArgProgram τ σ ε β) (s : σ) : (ask i >>= f).run argv s = ⟨.fault, s, [i]⟩ := by
  change (ArgProgram.arg i f).run argv s = _
  simp only [run, h]

theorem reads_ask_bind_some {argv : ℕ → Option τ} {i : ℕ} {t : τ} (h : argv i = some t)
    (f : τ → ArgProgram τ σ ε β) (s : σ) :
    ((ask i >>= f).run argv s).reads = i :: ((f t).run argv s).reads := by
  change ((ArgProgram.arg i f).run argv s).reads = _
  simp only [run, h]

theorem mem_reads_ask_bind (argv : ℕ → Option τ) (i : ℕ) (f : τ → ArgProgram τ σ ε β) (s : σ) :
    i ∈ ((ask i >>= f).run argv s).reads := by
  cases h : argv i with
  | none => simp [run_ask_bind_none h]
  | some t => simp [reads_ask_bind_some h]

/-- What a program reads is read when another follows it. -/
theorem mem_reads_bind {i : ℕ} {s : σ} (f : α → ArgProgram τ σ ε β)
    (h : i ∈ (p.run argv s).reads) : i ∈ ((p >>= f).run argv s).reads := by
  rw [run_bind]
  cases (p.run argv s).ending with
  | value a => exact List.mem_append_left _ h
  | stopped e => exact h
  | fault => exact h

theorem state_ask_bind_some {argv : ℕ → Option τ} {i : ℕ} {t : τ} (h : argv i = some t)
    (f : τ → ArgProgram τ σ ε β) (s : σ) :
    ((ask i >>= f).run argv s).state = ((f t).run argv s).state := by
  change ((ArgProgram.arg i f).run argv s).state = _
  simp only [run, h]

/-- Without a state to depend on, confinement is a matter of the indices read. -/
theorem confined_iff_reads (argv : ℕ → Option τ) (p : ArgProgram τ Unit ε α) :
    p.Confined n argv ↔ ∀ i ∈ (p.run argv ()).reads, i < n := by
  constructor
  · intro hp i hi
    exact hp.lt_of_mem_reads hi
  · intro h
    induction p with
    | ret a => trivial
    | stop e => trivial
    | arg j next ih =>
      cases ht : argv j with
      | none =>
        refine ⟨h j (by simp [run, ht]), fun t h' => ?_⟩
        exact absurd (ht.symm.trans h') nofun
      | some t =>
        simp only [run, ht, List.mem_cons, forall_eq_or_imp] at h
        refine ⟨h.1, fun t' h' => ?_⟩
        obtain rfl := Option.some.inj (ht.symm.trans h')
        exact ih t h.2
    | get next ih =>
      intro s
      exact ih s h
    | put s next ih => exact ih h

end Rules

section Outcome

variable {argv : ℕ → Option τ} {p q : ArgProgram τ σ ε α} {f : α → ArgProgram τ σ ε β} {s : σ}

/-- How a run ends, without its reads. -/
def outcome (argv : ℕ → Option τ) (p : ArgProgram τ σ ε α) (s : σ) : Ending ε α × σ :=
  ((p.run argv s).ending, (p.run argv s).state)

@[simp] theorem outcome_pure (a : α) :
    (pure a : ArgProgram τ σ ε α).outcome argv s = (.value a, s) := rfl

@[simp] theorem outcome_get (next : σ → ArgProgram τ σ ε α) :
    (ArgProgram.get next).outcome argv s = (next s).outcome argv s := rfl

@[simp] theorem outcome_ask_bind (i : ℕ) (f : τ → ArgProgram τ σ ε β) :
    (ask i >>= f).outcome argv s =
      (argv i).elim (.fault, s) fun t => (f t).outcome argv s := by
  change (ArgProgram.arg i f).outcome argv s = _
  cases h : argv i with
  | none => simp only [outcome, run, h, Option.elim_none]
  | some t => simp only [outcome, run, h, Option.elim_some]

@[simp] theorem outcome_act_bind (g : σ → α × σ) :
    (act g >>= f).outcome argv s = (f (g s).1).outcome argv (g s).2 := rfl

@[simp] theorem outcome_edit_bind (g : σ → σ) (f : Unit → ArgProgram τ σ ε β) :
    (edit g >>= f).outcome argv s = (f ()).outcome argv (g s) := rfl

@[simp] theorem outcome_map_edit (f : Unit → α) (g : σ → σ) :
    (f <$> (edit g : ArgProgram τ σ ε Unit)).outcome argv s = (.value (f ()), g s) := rfl

@[simp] theorem outcome_pure_bind (a : α) :
    (pure a >>= f).outcome argv s = (f a).outcome argv s := rfl

@[simp] theorem outcome_ite {c : Prop} [Decidable c] :
    (if c then p else q).outcome argv s = if c then p.outcome argv s else q.outcome argv s := by
  split_ifs <;> rfl

@[simp] theorem outcome_ite_bind {c : Prop} [Decidable c] :
    ((if c then p else q) >>= f).outcome argv s =
      if c then (p >>= f).outcome argv s else (q >>= f).outcome argv s := by
  split_ifs <;> rfl

@[simp] theorem outcome_bind_assoc {γ : Type} (g : β → ArgProgram τ σ ε γ) :
    ((p >>= f) >>= g).outcome argv s = (p >>= fun a => f a >>= g).outcome argv s := by
  rw [bind_assoc]

/-- A program that ends with a value went through its parts. -/
theorem outcome_bind_eq_value {b : β} {s' : σ} (h : (p >>= f).outcome argv s = (.value b, s')) :
    ∃ a v, p.outcome argv s = (.value a, v) ∧ (f a).outcome argv v = (.value b, s') := by
  unfold outcome at h ⊢
  rw [run_bind] at h
  cases hend : (p.run argv s).ending with
  | value a =>
    simp only [hend] at h
    exact ⟨a, _, rfl, h⟩
  | stopped e =>
    simp only [hend, Prod.mk.injEq, reduceCtorEq, false_and] at h
  | fault =>
    simp only [hend, Prod.mk.injEq, reduceCtorEq, false_and] at h

end Outcome

end ArgProgram

end AtNode
