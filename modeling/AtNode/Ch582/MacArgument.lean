import AtNode.Ch582.AdvParsing
import AtNode.Ch582.ArgWrap
import AtNode.Ch582.KeyMap

/-!
# Addresses as arguments

`AT+MAC` and `AT+BT_CONN=mac` walk through the text of an address with the same loop, from the first
character to the last digit of the sixth group. The loop leaves the text at the first character that
does not fit, so it never goes beyond the terminating zero; it does not look at what follows the sixth
group, and an address with anything behind it is taken as the address.
-/

namespace AtNode.AtCmds

open ArgProgram CString
open Ble (Addr hex)
open Central.Adv (Parser)

section Digits

def Digit (c : UInt8) : Prop :=
  0x30 ≤ c ∧ c ≤ 0x39 ∨ 0x41 ≤ c ∧ c ≤ 0x46 ∨ 0x61 ≤ c ∧ c ≤ 0x66

instance (c : UInt8) : Decidable (Digit c) := inferInstanceAs (Decidable (_ ∨ _))

def upperCase (c : UInt8) : UInt8 := if 0x61 ≤ c ∧ c ≤ 0x7A then c - 0x20 else c

theorem digit_iff (c : UInt8) : (hexDigit c).isSome = decide (Digit c) := by
  have hall : (List.range 256).all fun i =>
      (hexDigit (UInt8.ofNat i)).isSome == decide (Digit (UInt8.ofNat i)) := by
    decide +kernel
  exact eq_of_beq (Playback.forall_byte (P := fun c => (hexDigit c).isSome == decide (Digit c)) hall c)

def printedUpper (c : UInt8) : Bool :=
  (hexDigit c).all fun x => x < 16 && hex x == upperCase c

theorem hex_of_hexDigit {c x : UInt8} (h : hexDigit c = some x) : x < 16 ∧ hex x = upperCase c := by
  have hall : (List.range 256).all fun i => printedUpper (UInt8.ofNat i) := by
    decide +kernel
  have hc := Playback.forall_byte hall c
  rw [printedUpper, h, Option.all_some, Bool.and_eq_true, decide_eq_true_iff, beq_iff_eq] at hc
  exact hc

theorem nibbles {x y : UInt8} (hx : x < 16) (hy : y < 16) :
    (x <<< 4 ||| y) >>> 4 = x ∧ (x <<< 4 ||| y) &&& 0xF = y := by
  have hall : ∀ i j : Fin 16,
      (UInt8.ofNat i <<< 4 ||| UInt8.ofNat j) >>> 4 = UInt8.ofNat i ∧
        (UInt8.ofNat i <<< 4 ||| UInt8.ofNat j) &&& 0xF = UInt8.ofNat j := by
    decide +kernel
  have h := hall ⟨x.toNat, UInt8.lt_iff_toNat_lt.mp hx⟩ ⟨y.toNat, UInt8.lt_iff_toNat_lt.mp hy⟩
  simpa using h

theorem hex2_of_digits {a b x y : UInt8} (ha : hexDigit a = some x) (hb : hexDigit b = some y) :
    hex2 (x <<< 4 ||| y) = [upperCase a, upperCase b] := by
  obtain ⟨hx, hax⟩ := hex_of_hexDigit ha
  obtain ⟨hy, hby⟩ := hex_of_hexDigit hb
  obtain ⟨hhigh, hlow⟩ := nibbles hx hy
  rw [hex2, hhigh, hlow, hax, hby]

end Digits

section Loop

/-- A text in memory with its terminating zero. What lies behind cannot be read. -/
def textMemory (t : Text) : ℕ → Option UInt8 := fun i => (t ++ [0])[i]?

/-- The loop of both commands with `k` groups to go, `*p` being the next character. -/
def macLoop : ℕ → ℕ → Parser (Option (List UInt8))
  | 0, _ => pure (some [])
  | k + 1, p => do
    let a ← ask p
    match hexDigit a with
    | none => pure none
    | some x => do
      let b ← ask (p + 1)
      match hexDigit b with
      | none => pure none
      | some y =>
        if k = 0 then pure (some [x <<< 4 ||| y])
        else do
          let c ← ask (p + 2)
          if c = ':'.toUInt8 then do
            let rest ← macLoop k (p + 3)
            pure (rest.map fun bs => (x <<< 4 ||| y) :: bs)
          else pure none

variable {k p : ℕ} {t : Text}

theorem run_ask_bind {α : Type} {c : UInt8} (f : UInt8 → Parser α) (h : textMemory t p = some c) :
    (ask p >>= f).run (textMemory t) () = ⟨((f c).run (textMemory t) ()).ending, (),
      p :: ((f c).run (textMemory t) ()).reads⟩ := by
  change (ArgProgram.arg p f).run (textMemory t) () = _
  simp only [run, h]

theorem textMemory_of_drop {c : UInt8} {u : Text} (h : t.drop p = c :: u) :
    textMemory t p = some c ∧ t.drop (p + 1) = u ∧ p + 1 ≤ t.length := by
  have hlt : p < t.length := by
    by_contra hle
    rw [List.drop_eq_nil_of_le (Nat.not_lt.mp hle)] at h
    cases h
  rw [List.drop_eq_getElem_cons hlt, List.cons.injEq] at h
  rw [textMemory, List.getElem?_append_left hlt, List.getElem?_eq_getElem hlt, h.1]
  exact ⟨rfl, h.2, hlt⟩

theorem textMemory_of_drop_nil (h : t.drop p = []) (hp : p ≤ t.length) : textMemory t p = some 0 := by
  have hlen : t.length = p := Nat.le_antisymm (List.drop_eq_nil_iff.mp h) hp
  rw [textMemory, ← hlen, List.getElem?_append_right (Nat.le_refl _), Nat.sub_self]
  rfl

/-- The loop reads what `macBytes` says, and nothing behind the terminating zero. -/
theorem macLoop_run (hp : p ≤ t.length) :
    ((macLoop k p).run (textMemory t) ()).ending = .value (macBytes k (t.drop p)) ∧
      ∀ i ∈ ((macLoop k p).run (textMemory t) ()).reads, i ≤ t.length := by
  induction k generalizing p with
  | zero => exact ⟨rfl, fun i hi => nomatch hi⟩
  | succ k ih =>
    have hzero : hexDigit 0 = none := by decide
    rw [macLoop]
    cases hd : t.drop p with
    | nil =>
      rw [run_ask_bind _ (textMemory_of_drop_nil hd hp), hzero]
      exact ⟨rfl, by simpa using hp⟩
    | cons a u =>
      obtain ⟨ha, hu, hp1⟩ := textMemory_of_drop hd
      rw [run_ask_bind _ ha]
      cases hx : hexDigit a with
      | none =>
        refine ⟨?_, by simpa using hp⟩
        cases u with
        | nil => rfl
        | cons b v => simp only [macBytes, hx, run_pure, Option.bind_eq_bind, Option.bind_none]
      | some x =>
        cases u with
        | nil =>
          dsimp only
          rw [run_ask_bind _ (textMemory_of_drop_nil hu hp1), hzero]
          exact ⟨rfl, by simp; omega⟩
        | cons b v =>
          obtain ⟨hb, hv, hp2⟩ := textMemory_of_drop hu
          dsimp only
          rw [run_ask_bind _ hb]
          cases hy : hexDigit b with
          | none =>
            refine ⟨?_, by simp; omega⟩
            simp only [macBytes, hx, hy, run_pure, Option.bind_eq_bind, Option.bind_none,
              Option.bind_some]
          | some y =>
            dsimp only
            by_cases hk : k = 0
            · refine ⟨?_, by rw [if_pos hk]; simp; omega⟩
              simp only [macBytes, hx, hy, hk, if_true, run_pure, Option.bind_eq_bind,
                Option.bind_some]
            simp only [hk, if_false]
            cases v with
            | nil =>
              rw [run_ask_bind _ (textMemory_of_drop_nil hv hp2), if_neg (by decide)]
              refine ⟨?_, by simp; omega⟩
              simp only [macBytes, hx, hy, hk, if_false, run_pure, Option.bind_eq_bind,
                Option.bind_some]
            | cons c w =>
              obtain ⟨hc, hw, hp3⟩ := textMemory_of_drop hv
              rw [run_ask_bind _ hc]
              by_cases hcolon : c = ':'.toUInt8
              · obtain ⟨hend, hreads⟩ := ih hp3
                rw [hw] at hend
                simp only [hcolon, if_true, run_bind, hend, run_pure, List.append_nil]
                refine ⟨?_, fun i hi => ?_⟩
                · simp only [macBytes, hx, hy, hk, if_false, if_true, Option.bind_eq_bind,
                    Option.bind_some]
                  cases macBytes k w <;> rfl
                · simp only [List.mem_cons] at hi
                  rcases hi with rfl | rfl | rfl | hi
                  · exact hp
                  · exact hp1
                  · exact hp2
                  · exact hreads i hi
              · rw [if_neg hcolon]
                refine ⟨?_, by simp; omega⟩
                simp only [macBytes, hx, hy, hk, hcolon, if_false, run_pure, Option.bind_eq_bind,
                  Option.bind_some]

end Loop

section Grammar

variable {k : ℕ} {a b : UInt8} {t u v : Text} {bs : List UInt8} {addr : Addr}

/-- Groups of two digits with colons between them. -/
inductive Groups : ℕ → Text → Prop
  | last {a b : UInt8} (ha : Digit a) (hb : Digit b) : Groups 1 [a, b]
  | more {k : ℕ} {a b : UInt8} {t : Text} (ha : Digit a) (hb : Digit b) (ht : Groups k t) :
      Groups (k + 1) (a :: b :: ':'.toUInt8 :: t)

theorem Groups.length (h : Groups k t) : t.length + 1 = 3 * k := by
  induction h with
  | last => rfl
  | more _ _ _ ih =>
    simp only [List.length_cons]
    omega

/-- Bytes with colons between them, as they are printed. -/
def printGroups : List UInt8 → Text
  | [] => []
  | [b] => hex2 b
  | b :: bs => hex2 b ++ ':'.toUInt8 :: printGroups bs

theorem exists_hexDigit (h : Digit a) : ∃ x, hexDigit a = some x := by
  rw [← Option.isSome_iff_exists, digit_iff, decide_eq_true_iff]
  exact h

theorem digit_of_hexDigit {x : UInt8} (h : hexDigit a = some x) : Digit a := by
  rw [← decide_eq_true_iff (p := Digit a), ← digit_iff, h]
  rfl

theorem macBytes_of_groups (h : Groups k u) (v : Text) : (macBytes k (u ++ v)).isSome := by
  induction h with
  | last ha hb =>
    obtain ⟨x, hx⟩ := exists_hexDigit ha
    obtain ⟨y, hy⟩ := exists_hexDigit hb
    simp [macBytes, hx, hy]
  | @more k a b t ha hb ht ih =>
    obtain ⟨x, hx⟩ := exists_hexDigit ha
    obtain ⟨y, hy⟩ := exists_hexDigit hb
    obtain ⟨bs, hbs⟩ := Option.isSome_iff_exists.mp ih
    have hk : k ≠ 0 := by
      have := ht.length
      omega
    simp [macBytes, hx, hy, hk, hbs]

theorem macBytes_cases (h : macBytes (k + 1) t = some bs) :
    ∃ a b x y rest, t = a :: b :: rest ∧ hexDigit a = some x ∧ hexDigit b = some y ∧
      (k = 0 ∧ bs = [x <<< 4 ||| y] ∨ ∃ w more, rest = ':'.toUInt8 :: w ∧
        macBytes k w = some more ∧ bs = (x <<< 4 ||| y) :: more) := by
  match t, h with
  | [], h => cases h
  | [a], h => cases h
  | a :: b :: rest, h =>
    simp only [macBytes, Option.bind_eq_bind] at h
    obtain ⟨x, hx, h⟩ := Option.bind_eq_some_iff.mp h
    obtain ⟨y, hy, h⟩ := Option.bind_eq_some_iff.mp h
    refine ⟨a, b, x, y, rest, rfl, hx, hy, ?_⟩
    split_ifs at h with hk
    · cases h
      exact Or.inl ⟨hk, rfl⟩
    · cases rest with
      | nil => cases h
      | cons c w =>
        simp only at h
        split_ifs at h with hc
        obtain ⟨more, hmore, h⟩ := Option.bind_eq_some_iff.mp h
        cases h
        exact Or.inr ⟨w, more, by rw [hc], hmore, rfl⟩

theorem upperCase_colon : upperCase ':'.toUInt8 = ':'.toUInt8 := by decide

theorem groups_of_macBytes (h : macBytes (k + 1) t = some bs) :
    bs.length = k + 1 ∧ ∃ u v, t = u ++ v ∧ Groups (k + 1) u ∧
      u.map upperCase = printGroups bs := by
  induction k generalizing t bs with
  | zero =>
    obtain ⟨a, b, x, y, rest, rfl, hx, hy, ⟨-, rfl⟩ | ⟨w, more, rfl, hmore, rfl⟩⟩ :=
      macBytes_cases h
    · refine ⟨rfl, [a, b], rest, rfl, .last (digit_of_hexDigit hx) (digit_of_hexDigit hy), ?_⟩
      exact (hex2_of_digits hx hy).symm
    · cases hmore
      refine ⟨rfl, [a, b], _, rfl, .last (digit_of_hexDigit hx) (digit_of_hexDigit hy), ?_⟩
      exact (hex2_of_digits hx hy).symm
  | succ k ih =>
    obtain ⟨a, b, x, y, rest, rfl, hx, hy, ⟨hk, -⟩ | ⟨w, more, rfl, hmore, rfl⟩⟩ :=
      macBytes_cases h
    · cases hk
    · obtain ⟨hlen, u, v, rfl, hu, hprint⟩ := ih hmore
      refine ⟨congrArg (· + 1) hlen, a :: b :: ':'.toUInt8 :: u, v, rfl,
        .more (digit_of_hexDigit hx) (digit_of_hexDigit hy) hu, ?_⟩
      cases more with
      | nil => cases hlen
      | cons c more =>
        rw [printGroups, hex2_of_digits hx hy, List.map_cons, List.map_cons, List.map_cons, hprint,
          upperCase_colon]
        · rfl
        · exact List.cons_ne_nil _ _

/-- The grammar of an address. -/
abbrev IsMac (t : Text) : Prop := Groups 6 t

def Trailing (t : Text) : Prop := ∃ u v, v ≠ [] ∧ t = u ++ v ∧ IsMac u

theorem not_isMac_of_trailing (h : Trailing t) : ¬ IsMac t := by
  obtain ⟨u, v, hv, rfl, hu⟩ := h
  intro ht
  have hut := ht.length
  have huu := hu.length
  rw [List.length_append] at hut
  exact hv (List.length_eq_zero_iff.mp (by omega))

theorem macText_eq_printGroups (h : bs.length = 6) :
    macText (fun i => bs.getD (5 - i) 0) = printGroups bs := by
  match bs, h with
  | [a, b, c, d, e, f], _ =>
    have hcolon : bytes ":" = [':'.toUInt8] := by decide +kernel
    rw [macText, hcolon]
    rfl

theorem parseMac_isSome_iff : (parseMac t).isSome ↔ IsMac t ∨ Trailing t := by
  rw [parseMac, Option.isSome_map]
  constructor
  · intro h
    obtain ⟨bs, hbs⟩ := Option.isSome_iff_exists.mp h
    obtain ⟨-, u, v, rfl, hu, -⟩ := groups_of_macBytes hbs
    by_cases hv : v = []
    · rw [hv, List.append_nil]
      exact Or.inl hu
    · exact Or.inr ⟨u, v, hv, rfl, hu⟩
  · rintro (h | ⟨u, v, -, rfl, h⟩)
    · simpa using macBytes_of_groups h []
    · exact macBytes_of_groups h v

theorem macText_of_parseMac (h : parseMac t = some addr) (ht : IsMac t) :
    macText addr = t.map upperCase := by
  obtain ⟨bs, hbs, rfl⟩ := Option.map_eq_some_iff.mp h
  obtain ⟨hlen, u, v, rfl, hu, hprint⟩ := groups_of_macBytes hbs
  have hut := ht.length
  have huu := hu.length
  rw [List.length_append] at hut
  have hv : v = [] := List.length_eq_zero_iff.mp (by omega)
  rw [macText_eq_printGroups hlen, ← hprint, hv, List.append_nil]

end Grammar

section Commands

variable {n : ℕ} {σ : Type}

/-- A call with a value in the third place. -/
structure Call (n : ℕ) (σ : Type) where
  chip : Chip n σ
  node : Node n σ
  argc : ℕ
  argv : ℕ → Option Text
  name : Text
  text : Text
  enough : 3 ≤ argc
  given : ∀ i < argc, (argv i).isSome
  first : argv 1 = some name
  second : argv 2 = some text
  /-- The zero behind the text is its first. -/
  plain : 0 ∉ text

/-- The slot `AT+MAC` takes the name for. -/
def macSlot (n : ℕ) (name : Text) : Option (Fin n) :=
  if Router.devTargetParse name &&& Router.kbTgtBleAll = 0 then none
  else (Ble.bleSlots n (Router.devTargetParse name)).getLast?

/-- The two commands that take an address. -/
inductive MacCommand (n : ℕ) (σ : Type) where
  | mac (c : Call n σ) (slot : Fin n) (h : macSlot n c.name = some slot)
  | conn (c : Call n σ) (h : sameName c.name (bytes "mac") = true)

namespace MacCommand

def call : MacCommand n σ → Call n σ
  | mac c _ _ => c
  | conn c _ => c

def result : MacCommand n σ → Ending Stop Int × Node n σ
  | mac c _ _ => (atCmdMac c.chip c.argc).outcome c.argv c.node
  | conn c _ => (btConnDgl c.argc).outcome c.argv c.node

def complaint : MacCommand n σ → Text
  | mac _ _ _ => bytes "usage: AT+MAC=<BLEn>,<AA:BB:CC:DD:EE:FF>"
  | conn _ _ => bytes "ERROR: bad MAC"

def Accepts (x : MacCommand n σ) : Prop :=
  x.result ≠ (.value (-1), x.call.node.respond x.complaint)

def stored : MacCommand n σ → Addr
  | mac c slot h => (mac c slot h).result.2.keyboard.slotmac slot
  | conn c h => (conn c h).result.2.dongle.watchAddr

structure Meets (x : MacCommand n σ) : Prop where
  accepts : x.Accepts ↔ IsMac x.call.text
  prints : x.result.1 = .value 0 → macText x.stored = x.call.text.map upperCase
  loop : ((macLoop 6 0).run (textMemory x.call.text) ()).ending = .value (macBytes 6 x.call.text)
  reads : ∀ i ∈ ((macLoop 6 0).run (textMemory x.call.text) ()).reads, i ≤ x.call.text.length

theorem result_mac (c : Call n σ) {slot : Fin n} (h : macSlot n c.name = some slot) :
    (mac c slot h).result = match parseMac c.text with
      | none => (.value (-1), c.node.respond (mac c slot h).complaint)
      | some addr =>
        let q := Ble.kbBleSlotSetMac c.chip.ble c.node.keyboard (UInt8.ofNat slot) addr
        if q.2 < 0 then
          (.value (-1), ({ c.node with keyboard := q.1 } : Node n σ).respond
            (bytes "ERROR: need static-random MAC (MSB top bits = 11)"))
        else (.value 0, ({ c.node with keyboard := q.1 } : Node n σ).respond
          (bleText slot ++ bytes " mac=" ++ macText addr)) := by
  have henough := c.enough
  unfold macSlot at h
  rw [Option.ite_none_left_eq_some] at h
  change (atCmdMac c.chip c.argc).outcome c.argv c.node = _
  rw [atCmdMac, if_neg (by omega), outcome_ask_bind, c.first, Option.elim_some]
  simp only [h.1, if_false, h.2]
  rw [if_neg (by omega), outcome_ask_bind, c.second, Option.elim_some]
  cases parseMac c.text with
  | none => rfl
  | some addr =>
    dsimp only
    rw [outcome_act_bind, outcome_ite]
    rfl

theorem result_conn (c : Call n σ) (h : sameName c.name (bytes "mac") = true) :
    ∃ sec : ℤ, (conn c h).result = match parseMac c.text with
      | none => (.value (-1), c.node.respond (conn c h).complaint)
      | some addr =>
        let r := dongleConnectWatch c.node true addr c.text (toU8 sec)
        if r.1 < 0 then (.value (-1), r.2.respond (bytes "ERROR: busy"))
        else (.value 0, r.2.respond (bytes "watching " ++ dec sec ++ bytes "s for " ++ c.text ++
          bytes "...")) := by
  have henough := c.enough
  have hform : (btConnDgl c.argc).outcome c.argv c.node =
      (btConnWatch c.argc c.name true).outcome c.argv c.node := by
    rw [btConnDgl, if_neg (by omega), outcome_ask_bind, c.first, Option.elim_some, h, Bool.true_or,
      if_pos rfl]
  have hresult : (conn c h).result = (btConnWatch c.argc c.name true).outcome c.argv c.node := hform
  rw [hresult, btConnWatch, if_neg (by omega), outcome_ask_bind, c.second, Option.elim_some,
    if_pos rfl]
  cases parseMac c.text with
  | none => exact ⟨5, rfl⟩
  | some addr =>
    by_cases hfour : 3 < c.argc
    · obtain ⟨t, ht⟩ := Option.isSome_iff_exists.mp (c.given 3 hfour)
      refine ⟨atoi t, ?_⟩
      simp only [hfour, if_true, outcome_ask_bind, ht, Option.elim_some, outcome_pure_bind,
        outcome_act_bind, outcome_ite, outcome_refuse]
      rfl
    · refine ⟨5, ?_⟩
      simp only [hfour, if_false, outcome_pure_bind, outcome_act_bind, outcome_ite, outcome_refuse]
      rfl

theorem atResponse_ne {s t : Text} (w v : Node n σ) (hw : v.replies = w.replies)
    (h : atResponse s ≠ atResponse t) : v.respond s ≠ w.respond t := by
  intro heq
  have hreplies := congrArg Node.replies heq
  change v.replies ++ [atResponse s] = w.replies ++ [atResponse t] at hreplies
  rw [hw] at hreplies
  exact h (List.cons.inj (List.append_cancel_left hreplies)).1

theorem staticError_ne_usage :
    atResponse (bytes "ERROR: need static-random MAC (MSB top bits = 11)") ≠
      atResponse (bytes "usage: AT+MAC=<BLEn>,<AA:BB:CC:DD:EE:FF>") := by decide +kernel

theorem busy_ne_badMac :
    atResponse (bytes "ERROR: busy") ≠ atResponse (bytes "ERROR: bad MAC") := by decide +kernel

theorem accepts_iff (x : MacCommand n σ) : x.Accepts ↔ (parseMac x.call.text).isSome := by
  have hzero (t : Ending Stop Int × Node n σ) (v : Node n σ) (ht : t = (.value 0, v))
      (w : Node n σ) : t ≠ (.value (-1), w) := by
    rintro rfl
    cases congrArg Prod.fst ht
  cases x with
  | mac c slot h =>
    change (mac c slot h).result ≠ _ ↔ (parseMac c.text).isSome
    rw [result_mac]
    cases parseMac c.text with
    | none => exact iff_of_false (not_not.mpr rfl) Bool.false_ne_true
    | some addr =>
      refine iff_of_true ?_ rfl
      dsimp only
      split_ifs with hq
      · intro heq
        have hstate := (Prod.ext_iff.mp heq).2
        refine atResponse_ne c.node _ ?_ staticError_ne_usage hstate
        rfl
      · exact hzero _ _ rfl _
  | conn c h =>
    change (conn c h).result ≠ _ ↔ (parseMac c.text).isSome
    obtain ⟨sec, hsec⟩ := result_conn c h
    rw [hsec]
    cases parseMac c.text with
    | none => exact iff_of_false (not_not.mpr rfl) Bool.false_ne_true
    | some addr =>
      refine iff_of_true ?_ rfl
      dsimp only
      split_ifs with hq
      · have hsame : (dongleConnectWatch c.node true addr c.text (toU8 sec)).2.replies =
            c.node.replies := by
          have hw : (dongleConnectWatch c.node true addr c.text (toU8 sec)).2 = c.node := if_pos hq
          rw [hw]
        intro heq
        have hstate := (Prod.ext_iff.mp heq).2
        exact atResponse_ne c.node _ hsame busy_ne_badMac hstate
      · exact hzero _ _ rfl _

theorem slotAt_of_macSlot {name : Text} {slot : Fin n} (h : macSlot n name = some slot) :
    Ble.slotAt n (UInt8.ofNat slot) = some slot := by
  unfold macSlot at h
  rw [Option.ite_none_left_eq_some] at h
  have hmem : slot ∈ Ble.bleSlots n (Router.devTargetParse name) := List.mem_of_getLast? h.2
  have hlt : (slot : ℕ) < 7 := Ble.lt_seven_of_and_slotBit (Ble.mem_bleSlots.mp hmem)
  have hnat : (UInt8.ofNat slot).toNat = slot :=
    UInt8.toNat_ofNat_of_lt' (Nat.lt_trans hlt (by decide))
  rw [Ble.slotAt, dif_pos (hnat.symm ▸ slot.isLt)]
  exact congrArg some (Fin.ext hnat)

theorem slotmac_setMac (b : Ble.Board) (k : Ble.Keyboard n) {slot : UInt8} {s : Fin n} {addr : Addr}
    (hs : Ble.slotAt n slot = some s) (h : ¬ (Ble.kbBleSlotSetMac b k slot addr).2 < 0) :
    (Ble.kbBleSlotSetMac b k slot addr).1.slotmac s = addr := by
  unfold Ble.kbBleSlotSetMac at h ⊢
  rw [hs] at h ⊢
  dsimp only at h ⊢
  split_ifs at h ⊢ with hrandom
  · exact absurd neg_one_lt_zero h
  · obtain ⟨a, ha⟩ := Ble.slotmapSave_eq b { k with slotmac := Function.update k.slotmac s addr }
    rw [ha]
    exact Function.update_self (β := fun _ => Addr) s addr _

theorem watchAddr_connectWatch (w : Node n σ) (addr : Addr) (name : Text) (sec : UInt8)
    (h : ¬ (dongleConnectWatch w true addr name sec).1 < 0) :
    (dongleConnectWatch w true addr name sec).2.dongle.watchAddr = addr := by
  unfold dongleConnectWatch Central.bleDongleConnectWatch at h ⊢
  by_cases hbusy : w.dongle.state ≠ .idle ∨ w.dongle.watchActive = true
  · rw [if_pos hbusy] at h
    exact absurd neg_one_lt_zero h
  · obtain ⟨hidle, -⟩ := not_or.mp hbusy
    simp only [if_neg hbusy, Central.bleDongleScan, if_neg hidle]
    rfl

theorem stored_of_parseMac (x : MacCommand n σ) {addr : Addr}
    (h : parseMac x.call.text = some addr) (hok : x.result.1 = .value 0) : x.stored = addr := by
  cases x with
  | mac c slot hslot =>
    change (mac c slot hslot).result.2.keyboard.slotmac slot = addr
    change parseMac c.text = some addr at h
    rw [result_mac, h] at hok ⊢
    dsimp only at hok ⊢
    split_ifs at hok ⊢ with hq
    · cases hok
    · exact slotmac_setMac _ _ (slotAt_of_macSlot hslot) hq
  | conn c hform =>
    change (conn c hform).result.2.dongle.watchAddr = addr
    change parseMac c.text = some addr at h
    obtain ⟨sec, hsec⟩ := result_conn c hform
    rw [hsec, h] at hok ⊢
    dsimp only at hok ⊢
    split_ifs at hok ⊢ with hq
    · cases hok
    · exact watchAddr_connectWatch _ _ _ _ hq

theorem mac_argument_iff (x : MacCommand n σ) : x.Meets ↔ ¬ Trailing x.call.text := by
  have hloop := macLoop_run (k := 6) (t := x.call.text) (Nat.zero_le _)
  rw [List.drop_zero] at hloop
  constructor
  · intro hmeets htrailing
    have haccepts := (accepts_iff x).mpr (parseMac_isSome_iff.mpr (Or.inr htrailing))
    exact not_isMac_of_trailing htrailing (hmeets.accepts.mp haccepts)
  · intro hno
    have hmac : (parseMac x.call.text).isSome ↔ IsMac x.call.text := by
      rw [parseMac_isSome_iff, or_iff_left hno]
    refine ⟨(accepts_iff x).trans hmac, fun hok => ?_, hloop.1, hloop.2⟩
    cases hparse : parseMac x.call.text with
    | none =>
      have hrefused : ¬ x.Accepts := by
        rw [accepts_iff, hparse]
        exact Bool.false_ne_true
      rw [not_not.mp hrefused] at hok
      cases hok
    | some addr =>
      rw [stored_of_parseMac x hparse hok]
      exact macText_of_parseMac hparse (hmac.mp (by rw [hparse]; rfl))

end MacCommand

def trailingCall : Call 1 Unit where
  chip := bareChip
  node := bareNode
  argc := 3
  argv i := [bytes "AT+BT_CONN", bytes "mac", bytes "AA:bb:CC:DD:EE:FFxyz"][i]?
  name := bytes "mac"
  text := bytes "AA:bb:CC:DD:EE:FFxyz"
  enough := by decide
  given := by decide +kernel
  first := rfl
  second := rfl
  plain := by decide +kernel

def trailingConn : MacCommand 1 Unit := .conn trailingCall (by decide +kernel)

/-- It is taken for `AA:BB:CC:DD:EE:FF`. -/
theorem trailing_accepted :
    trailingConn.Accepts ∧ macText trailingConn.stored = bytes "AA:BB:CC:DD:EE:FF" ∧
      ¬ trailingConn.Meets := by
  have haccepts : trailingConn.Accepts :=
    (MacCommand.accepts_iff trailingConn).mpr (by decide +kernel)
  have hlength : (bytes "AA:bb:CC:DD:EE:FFxyz").length = 20 := by decide +kernel
  refine ⟨haccepts, by decide +kernel, fun h => ?_⟩
  have hmac := (h.accepts.mp haccepts).length
  change (bytes "AA:bb:CC:DD:EE:FFxyz").length + 1 = 18 at hmac
  omega

end Commands

end AtNode.AtCmds
