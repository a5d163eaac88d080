import AtNode.Arduino.ArduinoString
import AtNode.Lib.CString
import AtNode.Lib.Pairs

/-!
# Query strings of the Arduino firmware

`query_get` looks for a key by two searches: the key with an equals sign behind it at the head of the
query or behind an ampersand, and if its first place is neither of these, the same text with an
ampersand in front. The value goes up to the next ampersand and is decoded.

The payload of a message may contain zero bytes, and the searches end there. So a pair behind one is
not found, and an ampersand behind one does not end the value.
-/

namespace AtNode.ArduinoQuery

open CString Occurs
open ArduinoString

section Source

abbrev ampersand : UInt8 := 0x26

abbrev equalsSign : UInt8 := 0x3D

/-- `strtoul` in base 16. -/
def strtoul16 (s : Str) : UInt32 :=
  let t := s.dropWhile isSpace
  let u := if t.head? = some 0x2D ∨ t.head? = some 0x2B then t.tail else t
  let v := match u with
    | 0x30 :: x :: rest => if x = 0x78 ∨ x = 0x58 then digitsIn 16 rest else digitsIn 16 u
    | _ => digitsIn 16 u
  if 2 ^ 32 ≤ v then 0xFFFFFFFF
  else if t.head? = some 0x2D then -UInt32.ofNat v
  else UInt32.ofNat v

def urlDecode : Str → Str
  | 0x25 :: a :: b :: s => (strtoul16 [a, b]).toUInt8 :: urlDecode s
  | 0x2B :: s => 0x20 :: urlDecode s
  | c :: s => c :: urlDecode s
  | [] => []

/-- Where the key with its equals sign begins in the query. -/
def keyIndex (q key : Str) : Option ℕ :=
  let k := key ++ [equalsSign]
  match indexOfText q k with
  | some i =>
    if 0 < i ∧ q[i - 1]? ≠ some ampersand then (indexOfText q (ampersand :: k)).map (· + 1) else some i
  | none => (indexOfText q (ampersand :: k)).map (· + 1)

def rawValue (q key : Str) : Option Str :=
  (keyIndex q key).map fun i =>
    let start := i + (key.length + 1)
    match indexOfChar q ampersand start with
    | some amp => if 0 < amp then substring q start amp else q.drop start
    | none => q.drop start

def queryGet (q key : Str) : Str :=
  match rawValue q key with
  | none => []
  | some raw => urlDecode raw

end Source

section Searching

variable {q key : Str} {start : ℕ}

/-- Both searches together find the first place where a pair with the key begins, in what the C
library sees of the query. -/
theorem keyIndex_eq (hkey : 0 ∉ key) (q : Str) :
    keyIndex q key = Pairs.keyAt ampersand equalsSign key (cStr q) := by
  have hk : key ++ [equalsSign] ≠ [] := List.append_ne_nil_of_right_ne_nil _ (List.cons_ne_nil _ _)
  have hzero : 0 ∉ key ++ [equalsSign] := List.not_mem_append hkey (by decide)
  unfold keyIndex Pairs.keyAt
  generalize key ++ [equalsSign] = k at hk hzero ⊢
  have hcons : 0 ∉ ampersand :: k := List.not_mem_cons_of_ne_of_not_mem (by decide) hzero
  dsimp only
  rw [indexOfText_eq hk hzero, indexOfText_eq (List.cons_ne_nil _ _) hcons]
  by_cases hp : k <+: cStr q
  · rw [indexOf_eq_zero hp, if_pos hp]
    rfl
  · rw [if_neg hp]
    cases hi : indexOf k (cStr q) with
    | none => rfl
    | some i =>
      have hfirst := indexOf_eq_some_iff.mp hi
      dsimp only
      split_ifs with hamp
      · rfl
      · cases i with
        | zero => exact absurd (occursAt_id.mp hfirst.1).2 hp
        | succ i =>
          -- the ampersand in front of the first place makes it the first of the second search too
          have hseen : i < (cStr q).length := hfirst.1.1
          have hchar : (cStr q)[i]? = some ampersand :=
            (getElem?_cStr hseen).trans (not_not.mp fun h => hamp ⟨Nat.succ_pos i, h⟩)
          rw [indexOf_cons_of_firstAt hfirst hchar, Option.map_some]

/-- The value that is cut out is the pair's own unless a zero byte in it hides the ampersand behind
it. -/
theorem value_eq_iff (q : Str) (hstart : 0 < start) :
    (match indexOfChar q ampersand start with
      | some amp => if 0 < amp then substring q start amp else q.drop start
      | none => q.drop start) = Pairs.valueAt ampersand q start ↔
      (0 ∈ Pairs.valueAt ampersand q start → ampersand ∉ q.drop start) := by
  by_cases hlt : start < q.length
  · rw [indexOfChar_of_lt hlt]
    rcases Pairs.single_or_cons ampersand (q.drop start) with hno | ⟨pair, rest, hq, hpair⟩
    · have hvalue : Pairs.valueAt ampersand q start = q.drop start := Pairs.valueAt_single (i := 0) hno
      rw [indexOfChar_hidden fun h => hno ((cStr_prefix_self _).subset h), hvalue]
      exact iff_of_true rfl fun _ => hno
    · have hvalue : Pairs.valueAt ampersand q start = pair := by
        have hhead : Pairs.valueAt ampersand (pair ++ ampersand :: rest) 0 = pair.drop 0 :=
          Pairs.valueAt_append hpair (Nat.zero_le pair.length)
        rwa [← hq, List.drop_zero] at hhead
      have hmem : ampersand ∈ q.drop start := by
        rw [hq]
        exact List.mem_append_right _ List.mem_cons_self
      rw [hvalue, hq]
      by_cases hzero : 0 ∈ pair
      · have hhidden : ampersand ∉ cStr (pair ++ ampersand :: rest) := by
          rw [cStr_append_of_mem hzero]
          exact fun h => hpair ((cStr_prefix_self _).subset h)
        rw [indexOfChar_hidden hhidden, ← hq]
        refine iff_of_false (fun h => ?_) fun h => h hzero hmem
        rw [Option.map_none] at h
        exact hpair (h ▸ hmem)
      · rw [indexOfChar_append hpair hzero (by decide), Option.map_some]
        refine iff_of_true ?_ fun h => absurd h hzero
        dsimp only
        rw [if_pos (Nat.lt_of_lt_of_le hstart (Nat.le_add_left _ _)), substring, List.drop_take,
          Nat.add_sub_cancel, hq, List.take_left]
  · have hnil : q.drop start = [] := List.drop_eq_nil_of_le (Nat.not_lt.mp hlt)
    rw [indexOfChar, if_pos (Nat.not_lt.mp hlt), Pairs.valueAt, hnil]
    exact iff_of_true rfl fun _ => List.not_mem_nil

end Searching

section Agreement

variable {q key : Str}

/-- If a pair of the query has the key, no zero byte stands before the value of the first such pair,
and none in the value unless this is the last pair. -/
def Seen (q key : Str) : Prop :=
  ∀ i ∈ Pairs.keyAt ampersand equalsSign key q,
    0 ∉ q.take (i + (key.length + 1)) ∧
      (0 ∈ Pairs.valueAt ampersand q (i + (key.length + 1)) → ampersand ∉ q.drop (i + (key.length + 1)))

instance : Decidable (Seen q key) :=
  inferInstanceAs (Decidable (∀ i ∈ Pairs.keyAt ampersand equalsSign key q, _))

/-- `query_get` selects the value that splitting the query at every ampersand, and each pair at its
first equals sign, gives for the first pair with the key, exactly when no zero byte hides it. The key
comes as a C string. -/
theorem query_get_agrees_iff (q key : Str) (hamp : ampersand ∉ key) (heq : equalsSign ∉ key)
    (hzero : 0 ∉ key) :
    (rawValue q key = Pairs.lookup ampersand equalsSign key q ↔ Seen q key) ∧
      (Seen q key →
        queryGet q key = ((Pairs.lookup ampersand equalsSign key q).map urlDecode).getD []) := by
  have hraw : rawValue q key = Pairs.lookup ampersand equalsSign key q ↔ Seen q key := by
    rw [Pairs.lookup_eq_keyAt hamp heq (by decide), rawValue, keyIndex_eq hzero,
      Pairs.keyAt_of_prefix (cStr_prefix_self q), Seen]
    cases hi : Pairs.keyAt ampersand equalsSign key q with
    | none => simp
    | some i =>
      have hle : i + (key.length + 1) ≤ q.length := Pairs.keyAt_length_le hi
      have hpos : 0 < i + (key.length + 1) := Nat.succ_pos _
      rw [Option.filter_some, Option.map_some]
      simp only [decide_eq_true_eq, Option.mem_some_iff, forall_eq', le_length_cStr_iff hle,
        ← value_eq_iff q hpos]
      split_ifs with hseen
      · exact iff_of_false (fun h => nomatch h) fun h => h.1 hseen
      · rw [Option.map_some, Option.some_inj, and_iff_right hseen]
  refine ⟨hraw, fun hseen => ?_⟩
  rw [queryGet, hraw.mpr hseen]
  cases Pairs.lookup ampersand equalsSign key q <;> rfl

theorem query_get_behind_other_keys :
    rawValue (ascii "mask=7&k&k=4=&k=5") (ascii "k") = some (ascii "4=") ∧
      queryGet (ascii "mask=7&k&k=4=&k=5") (ascii "k") = ascii "4=" := by
  obtain ⟨hraw, hget⟩ := query_get_agrees_iff (ascii "mask=7&k&k=4=&k=5") (ascii "k") (by decide)
    (by decide) (by decide)
  exact ⟨(hraw.mpr (by decide)).trans (by decide), (hget (by decide)).trans (by decide)⟩

/-- A query `a` with a zero byte behind it, and then the pair. -/
def torn : Str := ascii "a" ++ 0 :: ascii "&k=4"

theorem pair_behind_zero_byte_lost :
    rawValue torn (ascii "k") = none ∧
      Pairs.lookup ampersand equalsSign (ascii "k") torn = some (ascii "4") ∧
      rawValue torn (ascii "k") ≠ Pairs.lookup ampersand equalsSign (ascii "k") torn := by
  decide

end Agreement

end AtNode.ArduinoQuery
