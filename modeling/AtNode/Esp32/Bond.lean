import AtNode.Esp32.Cfg

/-!
# The record of a BLE bond

A bond is kept in the registry as a record of forty bytes in lower-case hexadecimal: the long-term
key, the address of the peer, whether there is an identity key and that key, and the security level.
The numbers are little-endian.
-/

namespace AtNode.Bond

open Config

/-- A device address in the order of the host controller interface. -/
abbrev BdAddr := Vector UInt8 6

structure Identity where
  bdAddr : BdAddr
  irk : Option (BitVec 128)
  deriving DecidableEq

inductive SecurityLevel where
  | noEncryption
  | encrypted
  | encryptedAuthenticated
  deriving DecidableEq

structure BondInformation where
  identity : Identity
  ltk : BitVec 128
  securityLevel : SecurityLevel
  isBonded : Bool
  deriving DecidableEq

abbrev bondLen : ℕ := 40

section Encode

def toLeBytes (v : BitVec 128) : List UInt8 :=
  (List.range 16).map fun i => UInt8.ofBitVec (v.extractLsb' (8 * i) 8)

def SecurityLevel.toByte : SecurityLevel → UInt8
  | .noEncryption => 0
  | .encrypted => 1
  | .encryptedAuthenticated => 2

/-- The flag and the identity key; without one the bytes stay zero. -/
def irkBytes : Option (BitVec 128) → List UInt8
  | some irk => 1 :: toLeBytes irk
  | none => List.replicate 17 0

def bondRaw (b : BondInformation) : List UInt8 :=
  toLeBytes b.ltk ++ b.identity.bdAddr.toList ++ irkBytes b.identity.irk ++ [b.securityLevel.toByte]

def byteHex (b : UInt8) : Text := [Nat.digitChar (b.toNat / 16), Nat.digitChar (b.toNat % 16)]

def byteHexUpper (b : UInt8) : Text := (byteHex b).map Char.toUpper

def bondEncode (b : BondInformation) : Text := (bondRaw b).flatMap byteHex

end Encode

section Decode

def bytesOf : List ℕ → List UInt8
  | hi :: lo :: ds => (hi * 16 + lo).toUInt8 :: bytesOf ds
  | _ => []

def fromLeBytes (bs : List UInt8) : BitVec 128 :=
  BitVec.ofNat 128 (bs.foldr (fun b n => b.toNat + 256 * n) 0)

/-- `raw[i..i + n]`. -/
def slice (raw : List UInt8) (i n : ℕ) : List UInt8 := (raw.drop i).take n

def bondOfRaw (raw : List UInt8) : BondInformation where
  identity :=
    { bdAddr := Vector.ofFn fun i => raw.getD (16 + i) 0
      irk := if raw.getD 22 0 = 1 then some (fromLeBytes (slice raw 23 16)) else none }
  ltk := fromLeBytes (slice raw 0 16)
  securityLevel :=
    match raw.getD 39 0 with
    | 1 => .encrypted
    | 2 => .encryptedAuthenticated
    | _ => .noEncryption
  isBonded := true

/-- A text that is not forty bytes in hexadecimal is no bond. -/
def bondDecode (s : Text) : Option BondInformation :=
  if byteLen s ≠ 2 * bondLen then none
  else (s.mapM toDigit16).map fun digits => bondOfRaw (bytesOf digits)

end Decode

section Registry

variable (b : BondInformation)

theorem length_toLeBytes (v : BitVec 128) : (toLeBytes v).length = 16 := by
  rw [toLeBytes, List.length_map, List.length_range]

theorem length_irkBytes (irk : Option (BitVec 128)) : (irkBytes irk).length = 17 := by
  cases irk with
  | none => rfl
  | some irk => rw [irkBytes, List.length_cons, length_toLeBytes]

theorem length_bondRaw : (bondRaw b).length = bondLen := by
  unfold bondRaw
  rw [List.length_append, List.length_append, List.length_append, length_toLeBytes,
    length_irkBytes, Vector.length_toList]
  rfl

theorem utf8Size_digitChar : ∀ n < 16, (Nat.digitChar n).utf8Size = 1 := by decide

theorem byteLen_byteHex (x : UInt8) : byteLen (byteHex x) = 2 := by
  have hx := x.toNat_lt
  have hhi := utf8Size_digitChar (x.toNat / 16) (by omega)
  have hlo := utf8Size_digitChar (x.toNat % 16) (by omega)
  simp only [byteLen, byteHex, List.foldl_cons, List.foldl_nil, hhi, hlo]

theorem byteLen_flatMap_byteHex (raw : List UInt8) :
    byteLen (raw.flatMap byteHex) = 2 * raw.length := by
  induction raw with
  | nil => rfl
  | cons x raw ih =>
    rw [List.flatMap_cons, byteLen_append, ih, byteLen_byteHex, List.length_cons]
    omega

theorem byteLen_bondEncode : byteLen (bondEncode b) = 2 * bondLen := by
  rw [bondEncode, byteLen_flatMap_byteHex, length_bondRaw]

theorem validate_bondEncode : validate .bleBond (bondEncode b) = .ok (bondEncode b) := by
  have hlen : ¬ valMax ≤ byteLen (bondEncode b) := by
    rw [byteLen_bondEncode]
    decide
  exact if_neg hlen

theorem set_bondEncode (cfg : Cfg) (flash : Bool) :
    Config.set cfg "ble.bond".toList (bondEncode b) flash =
      if flash then .ok (store cfg .bleBond (bondEncode b), .bleBond) else .error .flash := by
  have hfind : tableDef.find? (fun k => k.name = "ble.bond".toList) = some .bleBond :=
    find_name .bleBond
  unfold Config.set
  rw [hfind]
  dsimp only
  rw [validate_bondEncode]

end Registry

end AtNode.Bond
