import Mathlib.Data.List.GetD
import AtNode.Esp32.CfgStore

/-!
# A stored bond comes back

The record of a bond decodes to the bond, and the registry keeps it over reboots. A text that decodes
need not be the record of a bond (it may have capital digits, another flag or another level), but the
bond it gives has a record, and that record decodes to the same bond.

A bond that is decoded counts as bonded; the record does not keep the flag.
-/

namespace AtNode.Bond

open Config

section Digits

theorem toDigit16_digitChar : ∀ n < 16, toDigit16 (Nat.digitChar n) = some n := by decide

theorem toUInt8_digits (x : UInt8) : (x.toNat / 16 * 16 + x.toNat % 16).toUInt8 = x := by
  have hx : x.toNat / 16 * 16 + x.toNat % 16 = x.toNat := by omega
  rw [hx]
  exact UInt8.ofNat_toNat

theorem mapM_byteHex (raw : List UInt8) :
    (raw.flatMap byteHex).mapM toDigit16 =
      some (raw.flatMap fun x => [x.toNat / 16, x.toNat % 16]) := by
  induction raw with
  | nil => rfl
  | cons x raw ih =>
    have hx := x.toNat_lt
    have hhi := toDigit16_digitChar (x.toNat / 16) (by omega)
    have hlo := toDigit16_digitChar (x.toNat % 16) (by omega)
    rw [List.flatMap_cons, byteHex, List.cons_append, List.cons_append, List.nil_append,
      List.mapM_cons, List.mapM_cons, hhi, hlo, ih]
    rfl

theorem bytesOf_digits (raw : List UInt8) :
    bytesOf (raw.flatMap fun x => [x.toNat / 16, x.toNat % 16]) = raw := by
  induction raw with
  | nil => rfl
  | cons x raw ih =>
    rw [List.flatMap_cons, List.cons_append, List.cons_append, List.nil_append, bytesOf, ih,
      toUInt8_digits]

/-- Forty bytes in hexadecimal decode to the bond of these bytes. -/
theorem bondDecode_byteHex {raw : List UInt8} (h : raw.length = bondLen) :
    bondDecode (raw.flatMap byteHex) = some (bondOfRaw raw) := by
  have hlen : ¬ byteLen (raw.flatMap byteHex) ≠ 2 * bondLen := by
    rw [byteLen_flatMap_byteHex, h]
    exact fun h => h rfl
  rw [bondDecode, if_neg hlen, mapM_byteHex, Option.map_some, bytesOf_digits]

end Digits

section Numbers

theorem foldr_bytes (n v : ℕ) :
    ((List.range n).map fun i => v / 256 ^ i % 256).foldr (fun b m => b + 256 * m) 0 =
      v % 256 ^ n := by
  induction n generalizing v with
  | zero => exact (Nat.mod_one v).symm
  | succ n ih =>
    have hshift : ∀ i, v / 256 ^ (i + 1) % 256 = v / 256 / 256 ^ i % 256 := fun i => by
      rw [Nat.pow_succ', Nat.div_div_eq_div_mul]
    rw [List.range_succ_eq_map, List.map_cons, List.map_map, List.foldr_cons]
    simp only [Function.comp_def, Nat.succ_eq_add_one, hshift]
    rw [ih, Nat.pow_zero, Nat.div_one, Nat.pow_succ', Nat.mod_mul]

theorem toNat_byte (v : BitVec 128) (i : ℕ) :
    (UInt8.ofBitVec (v.extractLsb' (8 * i) 8)).toNat = v.toNat / 256 ^ i % 256 := by
  rw [UInt8.toNat_ofBitVec, BitVec.extractLsb'_toNat, Nat.shiftRight_eq_div_pow, Nat.pow_mul]

theorem fromLeBytes_toLeBytes (v : BitVec 128) : fromLeBytes (toLeBytes v) = v := by
  have hfold : (toLeBytes v).foldr (fun b n => b.toNat + 256 * n) 0 = v.toNat := by
    have hbytes := foldr_bytes 16 v.toNat
    rw [List.foldr_map] at hbytes
    rw [toLeBytes, List.foldr_map]
    simp only [toNat_byte]
    rw [hbytes]
    exact Nat.mod_eq_of_lt v.isLt
  rw [fromLeBytes, hfold, BitVec.ofNat_toNat, BitVec.setWidth_eq]

end Numbers

section Record

variable (b : BondInformation)

theorem slice_append (xs ys zs : List UInt8) :
    slice (xs ++ ys ++ zs) xs.length ys.length = ys := by
  rw [slice, List.append_assoc, List.drop_left, List.take_left]

theorem getD_append (xs ys : List UInt8) (i : ℕ) :
    (xs ++ ys).getD (xs.length + i) 0 = ys.getD i 0 := by
  rw [List.getD_append_right _ _ _ _ (Nat.le_add_right _ _), Nat.add_sub_cancel_left]

theorem length_head : (toLeBytes b.ltk ++ b.identity.bdAddr.toList).length = 22 := by
  rw [List.length_append, length_toLeBytes, Vector.length_toList]

theorem ltk_bondRaw : slice (bondRaw b) 0 16 = toLeBytes b.ltk := by
  have hslice := slice_append [] (toLeBytes b.ltk)
    (b.identity.bdAddr.toList ++ (irkBytes b.identity.irk ++ [b.securityLevel.toByte]))
  rw [length_toLeBytes, List.nil_append, ← List.append_assoc, ← List.append_assoc] at hslice
  exact hslice

theorem bdAddr_bondRaw (i : Fin 6) : (bondRaw b).getD (16 + i) 0 = b.identity.bdAddr[i] := by
  have hget := getD_append (toLeBytes b.ltk)
    (b.identity.bdAddr.toList ++ (irkBytes b.identity.irk ++ [b.securityLevel.toByte])) i
  rw [length_toLeBytes, ← List.append_assoc, ← List.append_assoc] at hget
  have hi : (i : ℕ) < b.identity.bdAddr.toList.length := by
    rw [Vector.length_toList]
    exact i.isLt
  rw [bondRaw, hget, List.getD_append _ _ _ _ hi, List.getD_eq_getElem _ _ hi]
  exact Vector.getElem_toList hi

theorem flag_bondRaw :
    (bondRaw b).getD 22 0 = (irkBytes b.identity.irk ++ [b.securityLevel.toByte]).getD 0 0 := by
  have hget := getD_append (toLeBytes b.ltk ++ b.identity.bdAddr.toList)
    (irkBytes b.identity.irk ++ [b.securityLevel.toByte]) 0
  rw [length_head, ← List.append_assoc] at hget
  exact hget

theorem irk_bondRaw :
    (if (bondRaw b).getD 22 0 = 1 then some (fromLeBytes (slice (bondRaw b) 23 16)) else none) =
      b.identity.irk := by
  rw [flag_bondRaw]
  cases hirk : b.identity.irk with
  | none =>
    have hzero : ¬ (irkBytes none ++ [b.securityLevel.toByte]).getD 0 0 = 1 := fun h =>
      UInt8.zero_ne_one h
    exact if_neg hzero
  | some irk =>
    have hslice := slice_append (toLeBytes b.ltk ++ b.identity.bdAddr.toList ++ [1])
      (toLeBytes irk) [b.securityLevel.toByte]
    have hlen : (toLeBytes b.ltk ++ b.identity.bdAddr.toList ++ [1]).length = 23 := by
      rw [List.length_append, length_head]
      rfl
    rw [length_toLeBytes, hlen, List.append_assoc _ [1]] at hslice
    have hraw : bondRaw b = toLeBytes b.ltk ++ b.identity.bdAddr.toList ++ ([1] ++ toLeBytes irk) ++
        [b.securityLevel.toByte] := by
      rw [bondRaw, hirk]
      rfl
    rw [hraw, hslice, fromLeBytes_toLeBytes]
    exact if_pos rfl

theorem level_bondRaw : (bondRaw b).getD 39 0 = b.securityLevel.toByte := by
  have hget := getD_append (toLeBytes b.ltk ++ b.identity.bdAddr.toList ++ irkBytes b.identity.irk)
    [b.securityLevel.toByte] 0
  rw [List.length_append, length_head, length_irkBytes] at hget
  exact hget

/-- The record holds all of the bond but the flag. -/
theorem bondOfRaw_bondRaw : bondOfRaw (bondRaw b) = { b with isBonded := true } := by
  have haddr : (Vector.ofFn fun i : Fin 6 => (bondRaw b).getD (16 + i) 0) = b.identity.bdAddr := by
    apply Vector.ext
    intro i hi
    rw [Vector.getElem_ofFn]
    exact bdAddr_bondRaw b ⟨i, hi⟩
  rw [bondOfRaw, haddr, irk_bondRaw, ltk_bondRaw, level_bondRaw, fromLeBytes_toLeBytes]
  cases hlevel : b.securityLevel with
  | noEncryption => rfl
  | encrypted => rfl
  | encryptedAuthenticated => rfl

theorem bondDecode_bondEncode :
    bondDecode (bondEncode b) = some { b with isBonded := true } := by
  rw [bondEncode, bondDecode_byteHex (length_bondRaw b), bondOfRaw_bondRaw]

/-- Whatever text a bond was decoded from, its own record gives it again. -/
theorem bondDecode_of_decoded {s : Text} {b : BondInformation} (h : bondDecode s = some b) :
    bondDecode (bondEncode b) = some b := by
  have hbonded : b.isBonded = true := by
    rw [bondDecode] at h
    split_ifs at h with hlen
    obtain ⟨digits, -, rfl⟩ := Option.map_eq_some_iff.mp h
    rfl
  have hself : { b with isBonded := true } = b := by rw [← hbonded]
  rw [bondDecode_bondEncode, hself]

end Record

section Registry

open CfgStore

/-- In a state the registry takes the record of the bond unless flash fails, and reads it back as long
as no other call writes the key, whatever reboots come between. -/
structure Keeps (b : BondInformation) (d : Device) : Prop where
  taken : ∀ flash, (d.set ⟨Key.bleBond.name, bondEncode b, flash⟩).1 =
    if flash then .ok () else .error .flash
  readBack : ∀ es, Untouched .bleBond es →
    getStr (Run.final step (d.set ⟨Key.bleBond.name, bondEncode b, true⟩).2 es).cfg .bleBond =
      bondEncode b

theorem keeps_of_synced {d : Device} (h : Synced d) (b : BondInformation) : Keeps b d := by
  have hset := set_name d (validate_bondEncode b)
  refine ⟨fun flash => ?_, fun es hes => ?_⟩
  · rw [hset]
    cases flash with
    | false => rfl
    | true => rfl
  · have hsync : Synced (d.set ⟨Key.bleBond.name, bondEncode b, true⟩).2 :=
      (step_follows h (.set ⟨Key.bleBond.name, bondEncode b, true⟩)).1
    rw [getStr_untouched hsync hes, hset, if_pos rfl]
    exact getStr_store_self d.cfg .bleBond (bondEncode b)

/-- The record of a bond decodes to the bond; in every reachable state the registry takes the record
as it is and gives it back after reboots; and a text either is rejected or gives a bond whose record
decodes to that bond. -/
theorem bond_round_trip (b : BondInformation) (mac : Mac) (flash : Key → Option (List UInt8))
    (es : List Event) :
    bondDecode (bondEncode b) = some { b with isBonded := true } ∧
      Run.Always step (Keeps b) (boot mac flash) es ∧
      ∀ s, bondDecode s = none ∨ ∃ b', bondDecode s = some b' ∧
        bondDecode (bondEncode b') = some b' := by
  refine ⟨bondDecode_bondEncode b, ?_, fun s => ?_⟩
  · have hsync : Run.Always step Synced (boot mac flash) es :=
      Run.always_of_step (fun d e hd => (step_follows hd e).1) (synced_boot mac flash)
    exact hsync.mono fun d hd => keeps_of_synced hd b
  · cases hs : bondDecode s with
    | none => exact Or.inl rfl
    | some b' => exact Or.inr ⟨b', rfl, bondDecode_of_decoded hs⟩

end Registry

end AtNode.Bond
