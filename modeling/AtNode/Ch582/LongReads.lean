import AtNode.Ch582.HidDev
import AtNode.Lib.LongRead

/-!
# Values longer than a packet

The report map and the texts of the device information are longer than what fits into one answer. A host
reads them in parts, each from where the last one ended.
-/

namespace AtNode.HidDev

open LongRead (Serves readLong)

section Source

/-- The characteristics of the device information. -/
inductive Info where
  | systemId | modelNumber | serialNumber | firmwareRev | hardwareRev | softwareRev | mfrName | cert | pnpId
  deriving DecidableEq

def Info.uuid : Info → UInt16
  | .systemId => 0x2A23
  | .modelNumber => 0x2A24
  | .serialNumber => 0x2A25
  | .firmwareRev => 0x2A26
  | .hardwareRev => 0x2A27
  | .softwareRev => 0x2A28
  | .mfrName => 0x2A29
  | .cert => 0x2A2A
  | .pnpId => 0x2A50

def text (s : List Char) : List UInt8 := s.map Char.toUInt8

/-- What is read of a string leaves out its last zero. -/
def Info.value (systemId : List UInt8) : Info → List UInt8
  | .systemId => systemId
  | .modelNumber => text "Model Number".toList
  | .serialNumber => text "Serial Number".toList
  | .firmwareRev => text "Firmware Revision".toList
  | .hardwareRev => text "Hardware Revision".toList
  | .softwareRev => text "Software Revision".toList
  | .mfrName => text "Manufacturer Name".toList
  | .cert => [254, 0x00] ++ text "experimental".toList
  | .pnpId => [1, 0xD7, 0x07, 0x00, 0x00, 0x10, 0x01]

/-- `devInfo_ReadAttrCB`: nine branches that differ in the value. -/
def devInfoReadAttr (systemId : List UInt8) (uuid : UInt16) (offset maxLen : ℕ) :
    Except UInt8 (List UInt8) :=
  match [Info.systemId, .modelNumber, .serialNumber, .firmwareRev, .hardwareRev, .softwareRev, .mfrName,
    .cert, .pnpId].find? fun i => i.uuid = uuid with
  | some i =>
    if (i.value systemId).length ≤ offset then .error invalidOffset
    else .ok (((i.value systemId).drop offset).take maxLen)
  | none => .error attrNotFound

end Source

variable {n : ℕ}

theorem serves_reportMap (k : Hid n) : Serves (readAttr k .reportMap) hidReportMap := by
  have hread (offset maxLen : ℕ) : readAttr k .reportMap offset maxLen =
      if hidReportMap.length ≤ offset then .error invalidOffset
      else .ok ((hidReportMap.drop offset).take maxLen) := by
    unfold readAttr
    rw [if_neg fun h => h.2 rfl, if_neg (by decide), if_pos rfl]
  refine ⟨fun offset size h => ?_, fun offset size h => ⟨invalidOffset, ?_⟩⟩
  · rw [hread, if_neg (Nat.not_le_of_lt h)]
  · rw [hread, if_pos h]

theorem serves_devInfo (systemId : List UInt8) (i : Info) :
    Serves (devInfoReadAttr systemId i.uuid) (i.value systemId) := by
  have hread (offset maxLen : ℕ) : devInfoReadAttr systemId i.uuid offset maxLen =
      if (i.value systemId).length ≤ offset then .error invalidOffset
      else .ok (((i.value systemId).drop offset).take maxLen) := by
    cases i <;> rfl
  refine ⟨fun offset size h => ?_, fun offset size h => ⟨invalidOffset, ?_⟩⟩
  · rw [hread, if_neg (Nat.not_le_of_lt h)]
  · rw [hread, if_pos h]

/-- However a host cuts its requests, it gets the beginning of the report map and of each text, as much as
it asked for in all. -/
theorem long_reads (k : Hid n) (systemId : List UInt8) (i : Info) (sizes : List ℕ) :
    readLong (readAttr k .reportMap) 0 sizes = hidReportMap.take sizes.sum ∧
      readLong (devInfoReadAttr systemId i.uuid) 0 sizes = (i.value systemId).take sizes.sum :=
  ⟨LongRead.readLong_eq (serves_reportMap k) sizes, LongRead.readLong_eq (serves_devInfo systemId i) sizes⟩

/-- No other HID value can be read in parts. -/
theorem short_reads (k : Hid n) {a : Attr} (ha : a ≠ .reportMap) {offset : ℕ} (ho : 0 < offset)
    (maxLen : ℕ) : readAttr k a offset maxLen = .error attrNotLong := by
  have huuid : a.uuid ≠ Attr.reportMap.uuid := by
    revert ha
    cases a <;> decide
  exact if_pos ⟨ho, huuid⟩

end AtNode.HidDev
