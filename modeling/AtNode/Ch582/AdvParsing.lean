import AtNode.Lib.ArgProgram
import Mathlib.Logic.Relation

/-!
# Advertising payloads

`dgl_adv_is_hid` and `dgl_adv_get_name` walk over the AD structures of a payload, an `ad_len`, an
`ad_type` and `ad_len - 1` bytes of data each. A structure is taken when `i + ad_len` is at most
`len`, though its last byte stands at `i + ad_len`; so the walk takes a last structure of which one
byte is missing. Reading that byte is a read behind the payload, and with a payload of 255 bytes the
8-bit index behind the structure is 0 again.
-/

namespace AtNode.Central.Adv

open ArgProgram Relation

variable {α : Type} {len : UInt8} {data : ℕ → UInt8}

/-- A function that reads bytes of the payload; `stop` is where the fuel ends. -/
abbrev Parser (α : Type) := ArgProgram UInt8 Unit Unit α

def memory (data : ℕ → UInt8) : ℕ → Option UInt8 := fun i => some (data i)

abbrev dglNameLen : ℕ := 20

section Functions

/-- The loop of both functions, with what it does in a structure: return, or go on. -/
def adWalk (len : UInt8) (body : ℕ → UInt8 → UInt8 → Parser (Option α)) (otherwise : α) :
    ℕ → UInt8 → Parser α
  | 0, _ => .stop ()
  | fuel + 1, i =>
    if i.toNat + 1 < len.toNat then do
      let adLen ← ask i.toNat
      let adType ← ask (i.toNat + 1)
      if adLen = 0 ∨ len.toNat < i.toNat + adLen.toNat then pure otherwise
      else do
        match ← body i.toNat adLen adType with
        | some a => pure a
        | none => adWalk len body otherwise fuel (i + (adLen + 1))
    else pure otherwise

/-- The loop over `k` UUIDs; `BUILD_UINT16` puts the first byte last. -/
def uuidLoop : ℕ → ℕ → Parser Bool
  | 0, _ => pure false
  | k + 1, j => do
    let lo ← ask j
    let hi ← ask (j + 1)
    if lo = 0x12 ∧ hi = 0x18 then pure true else uuidLoop k (j + 2)

def hidBody (i : ℕ) (adLen adType : UInt8) : Parser (Option Bool) :=
  if (adType = 0x02 ∨ adType = 0x03) ∧ 3 ≤ adLen.toNat then do
    let found ← uuidLoop ((adLen.toNat - 1) / 2) (i + 2)
    pure (if found then some true else none)
  else pure none

def nameBody (i : ℕ) (adLen adType : UInt8) : Parser (Option (List UInt8)) :=
  if adType = 0x09 ∨ adType = 0x08 then do
    let name ← askMany (min (adLen.toNat - 1) dglNameLen) (i + 2)
    pure (some name)
  else pure none

def dglAdvIsHid (len : UInt8) (fuel : ℕ) : Parser Bool := adWalk len hidBody false fuel 0

def dglAdvGetName (len : UInt8) (fuel : ℕ) : Parser (List UInt8) := adWalk len nameBody [] fuel 0

end Functions

section Safety

/-- The function ends, reads the payload only, and depends on it only. -/
structure Safe (len : UInt8) (data : ℕ → UInt8) (f : ℕ → Parser α) : Prop where
  ends : ∃ fuel a, ((f fuel).run (memory data) ()).ending = .value a
  reads : ∀ fuel, ∀ i ∈ ((f fuel).run (memory data) ()).reads, i < len.toNat
  received : ∀ data' : ℕ → UInt8, (∀ i < len.toNat, data' i = data i) →
    ∀ fuel, (f fuel).run (memory data') () = (f fuel).run (memory data) ()

/-- The walk takes a structure at `i`. -/
structure AdAt (len : UInt8) (data : ℕ → UInt8) (i : ℕ) : Prop where
  header : i + 1 < len.toNat
  nonempty : data i ≠ 0
  within : i + (data i).toNat ≤ len.toNat

/-- From a whole structure that does not satisfy `found` the walk goes on to the next. -/
def Next (len : UInt8) (data : ℕ → UInt8) (found : ℕ → Prop) (i i' : ℕ) : Prop :=
  AdAt len data i ∧ i + (data i).toNat < len.toNat ∧ ¬ found i ∧ i' = i + (data i).toNat + 1

/-- The walk reaches a structure of which the last byte is missing. -/
def ReachesCut (len : UInt8) (data : ℕ → UInt8) (found : ℕ → Prop) (i : ℕ) : Prop :=
  ReflTransGen (Next len data found) 0 i ∧ AdAt len data i ∧ i + (data i).toNat = len.toNat

def UuidList (data : ℕ → UInt8) (i : ℕ) : Prop :=
  (data (i + 1) = 0x02 ∨ data (i + 1) = 0x03) ∧ 3 ≤ (data i).toNat

/-- Among the UUIDs of the structure the one of HID stands in the payload. -/
def HasHid (len : UInt8) (data : ℕ → UInt8) (i : ℕ) : Prop :=
  UuidList data i ∧ ∃ m < ((data i).toNat - 1) / 2, i + 2 * m + 3 < len.toNat ∧
    data (i + 2 * m + 2) = 0x12 ∧ data (i + 2 * m + 3) = 0x18

def IsName (data : ℕ → UInt8) (i : ℕ) : Prop := data (i + 1) = 0x09 ∨ data (i + 1) = 0x08

/-- A cut structure that `dgl_adv_is_hid` comes to does no harm: it has a HID UUID before the cut, or
its missing byte is no part of a UUID and the walk ends behind it. -/
def HidHarmless (len : UInt8) (data : ℕ → UInt8) (i : ℕ) : Prop :=
  HasHid len data i ∨ (len ≠ 255 ∧ ¬ (UuidList data i ∧ (data i).toNat % 2 = 1))

/-- The same for `dgl_adv_get_name`: a name is cut before the missing byte, or the walk ends behind
the structure. -/
def NameHarmless (len : UInt8) (data : ℕ → UInt8) (i : ℕ) : Prop :=
  (IsName data i ∧ dglNameLen + 1 < (data i).toNat) ∨ (¬ IsName data i ∧ len ≠ 255)

end Safety

section Walk

variable {body : ℕ → UInt8 → UInt8 → Parser (Option α)} {otherwise : α} {fuel : ℕ} {i : UInt8}

/-- What the body does in the structure at `i`. -/
abbrev bodyRun (data : ℕ → UInt8) (body : ℕ → UInt8 → UInt8 → Parser (Option α)) (i : ℕ) :
    Run Unit Unit (Option α) :=
  (body i (data i) (data (i + 1))).run (memory data) ()

abbrev walkRun (len : UInt8) (data : ℕ → UInt8) (body : ℕ → UInt8 → UInt8 → Parser (Option α))
    (otherwise : α) (fuel : ℕ) (i : UInt8) : Run Unit Unit α :=
  (adWalk len body otherwise fuel i).run (memory data) ()

@[simp] theorem run_ask_bind {f : UInt8 → Parser α} (i : ℕ) :
    (ask i >>= f).run (memory data) () =
      ⟨((f (data i)).run (memory data) ()).ending, (),
        i :: ((f (data i)).run (memory data) ()).reads⟩ := rfl

@[simp] theorem run_pure (a : α) (s : Unit) :
    (pure a : Parser α).run (memory data) s = ⟨.value a, (), []⟩ := rfl

theorem walk_end (h : ¬ AdAt len data i.toNat) :
    (walkRun len data body otherwise (fuel + 1) i).ending = .value otherwise ∧
      ∀ k ∈ (walkRun len data body otherwise (fuel + 1) i).reads, k < len.toNat := by
  rw [walkRun, adWalk]
  by_cases hh : i.toNat + 1 < len.toNat
  · have hno : data i.toNat = 0 ∨ len.toNat < i.toNat + (data i.toNat).toNat := by
      by_contra hno
      rw [not_or] at hno
      exact h ⟨hh, hno.1, by omega⟩
    rw [if_pos hh, run_ask_bind, run_ask_bind, if_pos hno, run_pure]
    refine ⟨rfl, fun k hk => ?_⟩
    simp only [List.mem_cons, List.not_mem_nil, or_false] at hk
    omega
  · rw [if_neg hh]
    exact ⟨rfl, fun k hk => absurd hk List.not_mem_nil⟩

theorem walk_body (h : AdAt len data i.toNat) :
    walkRun len data body otherwise (fuel + 1) i =
      let rest := (body i.toNat (data i.toNat) (data (i.toNat + 1)) >>= fun r => match r with
        | some a => pure a
        | none => adWalk len body otherwise fuel (i + (data i.toNat + 1))).run (memory data) ()
      ⟨rest.ending, (), i.toNat :: (i.toNat + 1) :: rest.reads⟩ := by
  have hno : ¬ (data i.toNat = 0 ∨ len.toNat < i.toNat + (data i.toNat).toNat) := by
    rw [not_or]
    have hw := h.within
    exact ⟨h.nonempty, by omega⟩
  rw [walkRun, adWalk, if_pos h.header, run_ask_bind, run_ask_bind, if_neg hno]

theorem walk_found (h : AdAt len data i.toNat) {a : α}
    (hr : (bodyRun data body i.toNat).ending = .value (some a)) :
    walkRun len data body otherwise (fuel + 1) i =
      ⟨.value a, (), i.toNat :: (i.toNat + 1) :: (bodyRun data body i.toNat).reads⟩ := by
  rw [walk_body h]
  simp only [run_bind, hr, run_pure, List.append_nil]

theorem walk_next (h : AdAt len data i.toNat)
    (hr : (bodyRun data body i.toNat).ending = .value none) :
    walkRun len data body otherwise (fuel + 1) i =
      ⟨(walkRun len data body otherwise fuel (i + (data i.toNat + 1))).ending, (),
        i.toNat :: (i.toNat + 1) :: ((bodyRun data body i.toNat).reads ++
          (walkRun len data body otherwise fuel (i + (data i.toNat + 1))).reads)⟩ := by
  rw [walk_body h]
  simp only [run_bind, hr]

/-- What the walk needs of a body: it always comes to an end, it stays within a whole structure, and
there it returns where `found` holds. -/
structure Body (len : UInt8) (data : ℕ → UInt8) (body : ℕ → UInt8 → UInt8 → Parser (Option α))
    (found : ℕ → Prop) : Prop where
  value : ∀ i, ∃ r, (bodyRun data body i).ending = .value r
  within : ∀ i, i + (data i).toNat < len.toNat → ∀ k ∈ (bodyRun data body i).reads, k < len.toNat
  found : ∀ i, i + (data i).toNat < len.toNat →
    ((bodyRun data body i).ending = .value none ↔ ¬ found i)

/-- The body reads the payload only in the cut structure, and the walk ends with it. -/
def EndsWell (len : UInt8) (data : ℕ → UInt8) (body : ℕ → UInt8 → UInt8 → Parser (Option α))
    (i : ℕ) : Prop :=
  (∀ k ∈ (bodyRun data body i).reads, k < len.toNat) ∧
    ((bodyRun data body i).ending ≠ .value none ∨ len ≠ 255)

variable {found : ℕ → Prop}

theorem next_toNat (hlt : i.toNat + (data i.toNat).toNat < len.toNat) :
    (i + (data i.toNat + 1)).toNat = i.toNat + (data i.toNat).toNat + 1 := by
  have hlen := len.toNat_lt
  rw [UInt8.toNat_add, UInt8.toNat_add, UInt8.toNat_one]
  omega

/-- Behind a cut structure the walk ends, or starts again. -/
theorem next_cut (hcut : i.toNat + (data i.toNat).toNat = len.toNat) :
    if len = 255 then i + (data i.toNat + 1) = 0
    else ¬ AdAt len data (i + (data i.toNat + 1)).toNat := by
  have hlen := len.toNat_lt
  split
  · rename_i h
    subst h
    apply UInt8.toNat_inj.mp
    rw [UInt8.toNat_add, UInt8.toNat_add, UInt8.toNat_one, UInt8.toNat_zero]
    change i.toNat + (data i.toNat).toNat = 255 at hcut
    omega
  · rename_i h
    have hne : len.toNat ≠ 255 := fun he => h (UInt8.toNat_inj.mp he)
    intro ha
    have hh := ha.header
    rw [UInt8.toNat_add, UInt8.toNat_add, UInt8.toNat_one] at hh
    omega

theorem reads_lt {j n : ℕ} (hj : j + 1 < n) {u v : List ℕ} (hu : ∀ k ∈ u, k < n)
    (hv : ∀ k ∈ v, k < n) : ∀ k ∈ j :: (j + 1) :: (u ++ v), k < n := by
  intro k hk
  simp only [List.mem_cons, List.mem_append] at hk
  rcases hk with rfl | rfl | hk | hk
  · omega
  · exact hj
  · exact hu k hk
  · exact hv k hk

theorem good_found (h : AdAt len data i.toNat) {a : α}
    (hr : (bodyRun data body i.toNat).ending = .value (some a))
    (hin : ∀ k ∈ (bodyRun data body i.toNat).reads, k < len.toNat) :
    (∃ fuel a, (walkRun len data body otherwise fuel i).ending = .value a) ∧
      ∀ fuel, ∀ k ∈ (walkRun len data body otherwise fuel i).reads, k < len.toNat := by
  refine ⟨⟨1, a, by rw [walk_found h hr]⟩, fun fuel => ?_⟩
  cases fuel with
  | zero => exact fun k hk => absurd hk List.not_mem_nil
  | succ fuel =>
    rw [walk_found h hr]
    simpa using reads_lt h.header hin (v := []) (by simp)

theorem good_next (h : AdAt len data i.toNat)
    (hr : (bodyRun data body i.toNat).ending = .value none)
    (hin : ∀ k ∈ (bodyRun data body i.toNat).reads, k < len.toNat)
    (hrest : (∃ fuel a, (walkRun len data body otherwise fuel (i + (data i.toNat + 1))).ending =
        .value a) ∧
      ∀ fuel, ∀ k ∈ (walkRun len data body otherwise fuel (i + (data i.toNat + 1))).reads,
        k < len.toNat) :
    (∃ fuel a, (walkRun len data body otherwise fuel i).ending = .value a) ∧
      ∀ fuel, ∀ k ∈ (walkRun len data body otherwise fuel i).reads, k < len.toNat := by
  obtain ⟨⟨fuel, a, hend⟩, hreads⟩ := hrest
  refine ⟨⟨fuel + 1, a, by rw [walk_next h hr]; exact hend⟩, fun fuel => ?_⟩
  cases fuel with
  | zero => exact fun k hk => absurd hk List.not_mem_nil
  | succ fuel =>
    rw [walk_next h hr]
    exact reads_lt h.header hin (hreads fuel)

theorem good_end (h : ¬ AdAt len data i.toNat) :
    (∃ fuel a, (walkRun len data body otherwise fuel i).ending = .value a) ∧
      ∀ fuel, ∀ k ∈ (walkRun len data body otherwise fuel i).reads, k < len.toNat := by
  refine ⟨⟨1, otherwise, (walk_end h).1⟩, fun fuel => ?_⟩
  cases fuel with
  | zero => exact fun k hk => absurd hk List.not_mem_nil
  | succ fuel => exact (walk_end h).2

/-- From a position on, the walk ends and stays in the payload if it does so at every cut structure
it reaches. -/
theorem walk_good (hb : Body len data body found) (otherwise : α) (i : UInt8)
    (hgood : ∀ e, ReflTransGen (Next len data found) i.toNat e → AdAt len data e →
      e + (data e).toNat = len.toNat → EndsWell len data body e) :
    (∃ fuel a, (walkRun len data body otherwise fuel i).ending = .value a) ∧
      ∀ fuel, ∀ k ∈ (walkRun len data body otherwise fuel i).reads, k < len.toNat := by
  induction hm : len.toNat - i.toNat using Nat.strongRecOn generalizing i with
  | ind m ih =>
    by_cases h : AdAt len data i.toNat
    case neg => exact good_end h
    obtain ⟨r, hr⟩ := hb.value i.toNat
    rcases Nat.lt_or_eq_of_le h.within with hlt | hcut
    · have hin := hb.within i.toNat hlt
      cases r with
      | some a => exact good_found h hr hin
      | none =>
        have hn := next_toNat hlt
        have hstep : Next len data found i.toNat (i + (data i.toNat + 1)).toNat :=
          ⟨h, hlt, (hb.found i.toNat hlt).mp hr, hn⟩
        refine good_next h hr hin (ih _ ?_ _ (fun e he => hgood e (.head hstep he)) rfl)
        have hpos := h.header
        omega
    · obtain ⟨hin, hend⟩ := hgood i.toNat .refl h hcut
      cases r with
      | some a => exact good_found h hr hin
      | none =>
        have hne : len ≠ 255 := hend.resolve_left fun hno => hno hr
        have hcut' := next_cut hcut
        rw [if_neg hne] at hcut'
        exact good_next h hr hin (good_end hcut')

/-- What the body reads in a structure the walk comes to is read by the walk. -/
theorem walk_reads (hb : Body len data body found) (otherwise : α) {e k : ℕ} (he : AdAt len data e)
    (hk : k ∈ (bodyRun data body e).reads) {j : ℕ}
    (hj : ReflTransGen (Next len data found) j e) :
    ∀ i : UInt8, i.toNat = j →
      ∃ fuel, k ∈ (walkRun len data body otherwise fuel i).reads := by
  induction hj using ReflTransGen.head_induction_on with
  | refl =>
    rintro i rfl
    refine ⟨1, ?_⟩
    obtain ⟨r, hr⟩ := hb.value i.toNat
    cases r with
    | some a =>
      rw [walk_found he hr]
      simp [hk]
    | none =>
      rw [walk_next he hr]
      simp [hk]
  | head hnext _ ih =>
    rintro i rfl
    obtain ⟨h, hlt, hnf, rfl⟩ := hnext
    obtain ⟨fuel, hin⟩ := ih _ (next_toNat hlt)
    refine ⟨fuel + 1, ?_⟩
    rw [walk_next h ((hb.found i.toNat hlt).mpr hnf)]
    simp [hin]

/-- A payload of 255 bytes whose last structure is cut sends the walk back to its beginning. -/
theorem walk_forever (hb : Body len data body found) (hlen : len = 255) {e : ℕ}
    (he : AdAt len data e) (hcut : e + (data e).toNat = len.toNat)
    (hr : (bodyRun data body e).ending = .value none)
    (hstart : ReflTransGen (Next len data found) 0 e) (fuel : ℕ) (i : UInt8)
    (hi : ReflTransGen (Next len data found) i.toNat e) (a : α) :
    (walkRun len data body otherwise fuel i).ending ≠ .value a := by
  induction fuel generalizing i with
  | zero => nofun
  | succ fuel ih =>
    rcases ReflTransGen.cases_head hi with rfl | ⟨j, ⟨h, hlt, hnf, rfl⟩, hrest⟩
    · have hback := next_cut hcut
      rw [if_pos hlen] at hback
      rw [walk_next he hr, hback]
      exact ih 0 hstart
    · rw [walk_next h ((hb.found i.toNat hlt).mpr hnf)]
      exact ih _ (by rwa [next_toNat hlt])

/-- The walk is safe exactly when it ends well at every cut structure it reaches. -/
theorem safe_walk_iff (hb : Body len data body found) :
    Safe len data (fun fuel => adWalk len body otherwise fuel 0) ↔
      ∀ e, ReachesCut len data found e → EndsWell len data body e := by
  constructor
  · rintro h e ⟨hreach, he, hcut⟩
    constructor
    · intro k hk
      obtain ⟨fuel, hin⟩ := walk_reads hb otherwise he hk hreach 0 rfl
      exact h.reads fuel k hin
    · by_contra hno
      rw [not_or, not_not, not_not] at hno
      obtain ⟨fuel, a, hend⟩ := h.ends
      exact walk_forever hb hno.2 he hcut hno.1 hreach fuel 0 hreach a hend
  · intro h
    obtain ⟨hends, hreads⟩ := walk_good hb otherwise 0
      fun e hr he hcut => h e ⟨hr, he, hcut⟩
    refine ⟨hends, hreads, fun data' hsame fuel => ?_⟩
    refine (Confined.run_congr ((confined_iff_reads _ _).mpr (hreads fuel)) ?_ ()).symm
    exact fun i hi => congrArg some (hsame i hi).symm

end Walk

section Hid

def HidAt (data : ℕ → UInt8) (j : ℕ) : Prop := data j = 0x12 ∧ data (j + 1) = 0x18

theorem uuidLoop_value (data : ℕ → UInt8) (k j : ℕ) :
    ∃ b, ((uuidLoop k j).run (memory data) ()).ending = .value b ∧
      (b = true ↔ ∃ m < k, HidAt data (j + 2 * m)) := by
  induction k generalizing j with
  | zero => exact ⟨false, rfl, by simp⟩
  | succ k ih =>
    rw [uuidLoop, run_ask_bind, run_ask_bind]
    by_cases h : data j = 0x12 ∧ data (j + 1) = 0x18
    · rw [if_pos h]
      exact ⟨true, rfl, fun _ => ⟨0, by omega, h⟩, fun _ => rfl⟩
    · rw [if_neg h]
      obtain ⟨b, hb, hiff⟩ := ih (j + 2)
      refine ⟨b, hb, hiff.trans ⟨?_, ?_⟩⟩
      · rintro ⟨m, hm, hid⟩
        exact ⟨m + 1, by omega, by rwa [show j + 2 * (m + 1) = j + 2 + 2 * m by omega]⟩
      · rintro ⟨m, hm, hid⟩
        cases m with
        | zero => exact absurd hid h
        | succ m =>
          exact ⟨m, by omega, by rwa [show j + 2 + 2 * m = j + 2 * (m + 1) by omega]⟩

/-- The loop reads behind the bound unless its UUIDs end before it or one in front of it is that of
HID. -/
theorem uuidLoop_reads (n k j : ℕ) :
    (∀ r ∈ ((uuidLoop k j).run (memory data) ()).reads, r < n) ↔
      k = 0 ∨ j + 2 * k ≤ n ∨ ∃ m < k, j + 2 * m + 1 < n ∧ HidAt data (j + 2 * m) := by
  induction k generalizing j with
  | zero => simp [uuidLoop]
  | succ k ih =>
    rw [uuidLoop, run_ask_bind, run_ask_bind]
    simp only [List.mem_cons, forall_eq_or_imp, Nat.succ_ne_zero, false_or]
    by_cases h : data j = 0x12 ∧ data (j + 1) = 0x18
    · rw [if_pos h, run_pure]
      constructor
      · intro hr
        exact Or.inr ⟨0, by omega, hr.2.1, h⟩
      · rintro (hle | ⟨m, -, hlt, -⟩)
        · exact ⟨by omega, by omega, by simp⟩
        · exact ⟨by omega, by omega, by simp⟩
    · rw [if_neg h, ih]
      constructor
      · rintro ⟨-, hj, rfl | hle | ⟨m, hm, hlt, hid⟩⟩
        · exact Or.inl (by omega)
        · exact Or.inl (by omega)
        · refine Or.inr ⟨m + 1, by omega, by omega, ?_⟩
          rwa [show j + 2 * (m + 1) = j + 2 + 2 * m by omega]
      · rintro (hle | ⟨m, hm, hlt, hid⟩)
        · exact ⟨by omega, by omega, Or.inr (Or.inl (by omega))⟩
        · cases m with
          | zero => exact absurd hid h
          | succ m =>
            refine ⟨by omega, by omega, Or.inr (Or.inr ⟨m, by omega, by omega, ?_⟩)⟩
            rwa [show j + 2 + 2 * m = j + 2 * (m + 1) by omega]

theorem hidBody_list {i : ℕ} (h : UuidList data i) :
    ∃ b, (bodyRun data hidBody i).ending = .value (if b then some true else none) ∧
      (b = true ↔ ∃ m < ((data i).toNat - 1) / 2, HidAt data (i + 2 + 2 * m)) ∧
      (bodyRun data hidBody i).reads =
        ((uuidLoop (((data i).toNat - 1) / 2) (i + 2)).run (memory data) ()).reads := by
  obtain ⟨b, hb, hiff⟩ := uuidLoop_value data (((data i).toNat - 1) / 2) (i + 2)
  unfold UuidList at h
  refine ⟨b, ?_, hiff, ?_⟩
  · rw [bodyRun, hidBody, if_pos h, run_bind, hb]
    rfl
  · rw [bodyRun, hidBody, if_pos h, run_bind, hb]
    simp

theorem hidBody_other {i : ℕ} (h : ¬ UuidList data i) :
    bodyRun data hidBody i = ⟨.value none, (), []⟩ := by
  unfold UuidList at h
  rw [bodyRun, hidBody, if_neg h]
  rfl

theorem hasHid_iff {i : ℕ} (h : UuidList data i) : HasHid len data i ↔
    ∃ m < ((data i).toNat - 1) / 2, i + 2 + 2 * m + 1 < len.toNat ∧ HidAt data (i + 2 + 2 * m) := by
  simp only [HasHid, h, true_and, HidAt, show ∀ m, i + 2 + 2 * m = i + 2 * m + 2 by omega]

theorem hid_body : Body len data hidBody (HasHid len data) where
  value i := by
    by_cases h : UuidList data i
    · obtain ⟨b, hb, -⟩ := hidBody_list h
      exact ⟨_, hb⟩
    · exact ⟨none, by rw [hidBody_other h]⟩
  within i hlt := by
    by_cases h : UuidList data i
    · obtain ⟨b, -, -, hr⟩ := hidBody_list h
      have hlen := h.2
      rw [hr, uuidLoop_reads]
      exact Or.inr (Or.inl (by omega))
    · rw [hidBody_other h]
      simp
  found i hlt := by
    by_cases h : UuidList data i
    · obtain ⟨b, hb, hiff, -⟩ := hidBody_list h
      have hhas : HasHid len data i ↔ b = true := by
        rw [hasHid_iff h, hiff]
        constructor
        · rintro ⟨m, hm, -, hid⟩
          exact ⟨m, hm, hid⟩
        · rintro ⟨m, hm, hid⟩
          exact ⟨m, hm, by omega, hid⟩
      rw [hb, hhas]
      cases b <;> simp
    · rw [hidBody_other h]
      exact ⟨fun _ hh => h hh.1, fun _ => rfl⟩

/-- In a cut structure the UUID loop ends well exactly when the structure is harmless. -/
theorem hid_endsWell {i : ℕ} (hcut : i + (data i).toNat = len.toNat) :
    EndsWell len data hidBody i ↔ HidHarmless len data i := by
  by_cases h : UuidList data i
  · obtain ⟨b, hb, hiff, hr⟩ := hidBody_list h
    have hlen := h.2
    rw [EndsWell, hr, uuidLoop_reads, ← hasHid_iff h, hb, HidHarmless]
    have hne : (Ending.value (if b then some true else none) : Ending Unit (Option Bool)) ≠
        .value none ↔ b = true := by
      cases b <;> simp
    rw [hne]
    constructor
    · rintro ⟨hk | hle | hhas, hend⟩
      · omega
      · rcases hend with hb' | hne
        · obtain ⟨m, hm, hid⟩ := hiff.mp hb'
          exact Or.inl ((hasHid_iff h).mpr ⟨m, hm, by omega, hid⟩)
        · exact Or.inr ⟨hne, fun hodd => by omega⟩
      · exact Or.inl hhas
    · rintro (hhas | ⟨hne, heven⟩)
      · obtain ⟨m, hm, -, hid⟩ := (hasHid_iff h).mp hhas
        exact ⟨Or.inr (Or.inr hhas), Or.inl (hiff.mpr ⟨m, hm, hid⟩)⟩
      · have hodd : (data i).toNat % 2 ≠ 1 := fun hodd => heven ⟨h, hodd⟩
        exact ⟨Or.inr (Or.inl (by omega)), Or.inr hne⟩
  · rw [EndsWell, hidBody_other h, HidHarmless]
    constructor
    · rintro ⟨-, hend⟩
      exact Or.inr ⟨hend.resolve_left fun hno => hno rfl, fun hu => h hu.1⟩
    · rintro (hhas | ⟨hne, -⟩)
      · exact absurd hhas.1 h
      · exact ⟨by simp, Or.inr hne⟩

end Hid

section Name

theorem run_askMany (k j : ℕ) : (askMany k j : Parser (List UInt8)).run (memory data) () =
    ⟨.value ((List.range' j k).map data), (), List.range' j k⟩ := by
  induction k generalizing j with
  | zero => rfl
  | succ k ih =>
    rw [askMany, run_ask_bind, run_bind, ih]
    simp [List.range'_succ]

theorem nameBody_name {i : ℕ} (h : IsName data i) :
    ∃ name, bodyRun data nameBody i = ⟨.value (some name), (),
      List.range' (i + 2) (min ((data i).toNat - 1) dglNameLen)⟩ := by
  unfold IsName at h
  refine ⟨(List.range' (i + 2) (min ((data i).toNat - 1) dglNameLen)).map data, ?_⟩
  rw [bodyRun, nameBody, if_pos h, run_bind, run_askMany]
  simp

theorem nameBody_other {i : ℕ} (h : ¬ IsName data i) :
    bodyRun data nameBody i = ⟨.value none, (), []⟩ := by
  unfold IsName at h
  rw [bodyRun, nameBody, if_neg h]
  rfl

theorem name_body : Body len data nameBody (IsName data) where
  value i := by
    by_cases h : IsName data i
    · obtain ⟨name, hn⟩ := nameBody_name h
      exact ⟨some name, by rw [hn]⟩
    · exact ⟨none, by rw [nameBody_other h]⟩
  within i hlt := by
    by_cases h : IsName data i
    · obtain ⟨name, hn⟩ := nameBody_name h
      rw [hn]
      intro k hk
      have hrange := List.mem_range'_1.mp hk
      omega
    · rw [nameBody_other h]
      simp
  found i hlt := by
    by_cases h : IsName data i
    · obtain ⟨name, hn⟩ := nameBody_name h
      rw [hn]
      simp [h]
    · rw [nameBody_other h]
      simp [h]

theorem name_endsWell {i : ℕ} (ha : AdAt len data i) (hcut : i + (data i).toNat = len.toNat) :
    EndsWell len data nameBody i ↔ NameHarmless len data i := by
  have hh := ha.header
  by_cases h : IsName data i
  · obtain ⟨name, hn⟩ := nameBody_name h
    rw [EndsWell, hn, NameHarmless]
    constructor
    · rintro ⟨hin, -⟩
      have hpos : 0 < min ((data i).toNat - 1) dglNameLen :=
        Nat.lt_min.mpr ⟨by omega, by decide⟩
      have hlast := hin (i + 2 + (min ((data i).toNat - 1) dglNameLen - 1))
        (List.mem_range'_1.mpr ⟨by omega, by omega⟩)
      exact Or.inl ⟨h, by omega⟩
    · rintro (⟨-, hlen⟩ | ⟨hno, -⟩)
      · refine ⟨fun k hk => ?_, Or.inl (by simp)⟩
        have hrange := List.mem_range'_1.mp hk
        omega
      · exact absurd h hno
  · rw [EndsWell, nameBody_other h, NameHarmless]
    simp [h]

end Name

/-- Both functions end and stay in the payload exactly when each cut structure they come to is
harmless to them. -/
theorem adv_parsing_iff (len : UInt8) (data : ℕ → UInt8) :
    (Safe len data (dglAdvIsHid len) ∧ Safe len data (dglAdvGetName len)) ↔
      (∀ i, ReachesCut len data (HasHid len data) i → HidHarmless len data i) ∧
        ∀ i, ReachesCut len data (IsName data) i → NameHarmless len data i := by
  refine and_congr ((safe_walk_iff hid_body).trans ?_) ((safe_walk_iff name_body).trans ?_)
  · exact forall_congr' fun i => forall_congr' fun h => hid_endsWell h.2.2
  · exact forall_congr' fun i => forall_congr' fun h => name_endsWell h.2.1 h.2.2

/-- A name of two characters of which one has arrived. -/
def cutName : ℕ → UInt8
  | 0 => 3
  | 1 => 0x09
  | 2 => 0x61
  | _ => 0x5A

theorem cut_name_reads_behind :
    ((dglAdvGetName 3 1).run (memory cutName) ()).ending = .value [0x61, 0x5A] ∧
      ¬ Safe 3 cutName (dglAdvGetName 3) := by
  have hrun : (dglAdvGetName 3 1).run (memory cutName) () =
      ⟨.value [0x61, 0x5A], (), [0, 1, 2, 3]⟩ := by rfl
  refine ⟨by rw [hrun], fun h => ?_⟩
  have hin := h.reads 1 3 (by rw [hrun]; simp)
  exact absurd hin (by decide)

end AtNode.Central.Adv
