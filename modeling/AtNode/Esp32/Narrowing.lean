import AtNode.Esp32.AtCommands

/-!
# Numbers that are cut to a byte on their way to the hardware

The AT console, the web server and the MQTT client parse the arguments of the hardware services as
numbers of 32 bits. Some are compared with 255 before they are cut to a byte, others are not: the
address of an I2C device on the AT console and on the web server, the bytes of an I2C write on the
AT console, and the channel of the converter over MQTT. The services see the byte alone.

What is asked for is read from the arguments without a limit. An operation is exact if it has no
access to the hardware, or the one that was asked for. It is proved for each front end which
arguments give exact operations.
-/

namespace AtNode.Narrowing

open Config Args Hws

section Meaning

/-- An access, in the numbers of the arguments. -/
inductive Ask where
  | gpioWrite (pin level : ℕ)
  | gpioRead (pin : ℕ)
  | adcRead (ch : ℕ)
  /-- The number of bytes may be left to the front end. -/
  | i2cRead (addr reg : ℕ) (len : Option ℕ)
  | i2cWrite (addr reg : ℕ) (data : List ℕ)
  deriving DecidableEq

/-- The number that is sent as the address of a register. -/
def regNumber (bs : List UInt8) : ℕ := bs.foldl (fun n b => 256 * n + b.toNat) 0

/-- The access is the one that is asked for. -/
def Ask.Is : Ask → Access → Prop
  | .gpioWrite p l, .gpioWrite pin high => pin.toNat = p ∧ (high = true ↔ l ≠ 0)
  | .gpioRead p, .gpioRead pin => pin.toNat = p
  | .adcRead c, .adc ch => ch.toNat = c
  | .i2cRead a r n, .i2cRead addr reg len => addr.toNat = a ∧ regNumber reg = r ∧ ∀ l ∈ n, len = l
  | .i2cWrite a r d, .i2cWrite addr reg data =>
    addr.toNat = a ∧ regNumber reg = r ∧ data.map UInt8.toNat = d
  | _, _ => False

/-- There is no access, or the one that is asked for. -/
def Exact (ask : Option Ask) (accs : List Access) : Prop :=
  accs = [] ∨ ∃ a acc, ask = some a ∧ accs = [acc] ∧ a.Is acc

theorem exact_nil (ask : Option Ask) : Exact ask [] := Or.inl rfl

theorem exact_one_iff {a : Ask} {acc : Access} : Exact (some a) [acc] ↔ a.Is acc := by
  constructor
  · rintro (h | ⟨a', acc', ha, hacc, his⟩)
    · cases h
    · cases ha
      cases hacc
      exact his
  · exact fun h => Or.inr ⟨a, acc, rfl, rfl, h⟩

theorem not_exact_none (acc : Access) : ¬ Exact none [acc] := by
  rintro (h | ⟨a, acc', ha, -⟩)
  · cases h
  · cases ha

end Meaning

section Services

variable (b : Board) {pin level ch addr reg len : ℕ}

theorem toNat_toUInt8 {n : ℕ} (h : n ≤ 255) : n.toUInt8.toNat = n := by
  rw [Nat.toUInt8_eq, UInt8.toNat_ofNat']
  exact Nat.mod_eq_of_lt (by omega)

theorem toNat_toUInt8_iff : addr.toUInt8.toNat = addr ↔ addr ≤ 255 := by
  constructor
  · intro h
    have hlt := addr.toUInt8.toNat_lt
    omega
  · exact toNat_toUInt8

theorem regNumber_regBytes (h : reg ≤ 0xFFFF) : regNumber (regBytes reg) = reg := by
  unfold regBytes regNumber
  split_ifs with hr
  · have hlow : reg &&& 0xFF = reg % 256 := Nat.and_two_pow_sub_one_eq_mod reg 8
    have hhigh : reg >>> 8 = reg / 256 := Nat.shiftRight_eq_div_pow reg 8
    rw [hlow, hhigh, List.foldl_cons, List.foldl_cons, List.foldl_nil,
      toNat_toUInt8 (n := reg / 256) (by omega), toNat_toUInt8 (n := reg % 256) (by omega)]
    omega
  · rw [List.foldl_cons, List.foldl_nil, toNat_toUInt8 (Nat.le_of_not_lt hr)]
    omega

theorem exact_gpioWrite (h : pin ≤ 255) :
    Exact (some (.gpioWrite pin level)) (gpioWrite b pin.toUInt8 (level ≠ 0)).accesses := by
  unfold gpioWrite
  split_ifs
  · exact exact_nil _
  · exact exact_one_iff.mpr ⟨toNat_toUInt8 h, decide_eq_true_iff⟩

theorem exact_gpioRead (h : pin ≤ 255) :
    Exact (some (.gpioRead pin)) (gpioRead b pin.toUInt8).accesses := by
  unfold gpioRead
  split_ifs
  · exact exact_nil _
  · exact exact_one_iff.mpr (toNat_toUInt8 h)

/-- The converter has no such channel. -/
def NoChannel (ch : UInt8) : Prop := 9 < ch ∨ ch = 7 ∨ ch = 8

theorem exact_adcRead_iff :
    Exact (some (.adcRead ch)) (adcReadMv b ch.toUInt8).accesses ↔
      ch ≤ 255 ∨ NoChannel ch.toUInt8 := by
  unfold adcReadMv NoChannel
  split_ifs with h
  · exact iff_of_true (exact_nil _) (Or.inr h)
  · rw [exact_one_iff, or_iff_left h]
    exact toNat_toUInt8_iff

/-- The service refuses the address of the device or that of the register. -/
def I2cRefused (addr : UInt8) (reg : ℕ) : Prop := 0x7F < addr ∨ 0xFFFF < reg

theorem exact_i2cRead_iff {n : Option ℕ} (hlen : len ≠ 0) (hn : ∀ l ∈ n, len = l) :
    Exact (some (.i2cRead addr reg n)) (i2cRead b addr.toUInt8 reg len).accesses ↔
      addr ≤ 255 ∨ I2cRefused addr.toUInt8 reg := by
  unfold i2cRead I2cRefused
  split_ifs with h
  · exact iff_of_true (exact_nil _) (Or.inr (h.resolve_left hlen))
  · rw [exact_one_iff, or_iff_left (not_or.mp h).2, ← toNat_toUInt8_iff]
    have hreg := (not_or.mp (not_or.mp h).2).2
    exact ⟨fun hi => hi.1, fun ha => ⟨ha, regNumber_regBytes (Nat.le_of_not_lt hreg), hn⟩⟩

theorem exact_i2cWrite_iff (addr reg : ℕ) (asked : Option (List ℕ)) {data : List UInt8}
    (hdata : data.length ≤ i2cIoMax) :
    Exact (asked.map (.i2cWrite addr reg)) (i2cWrite b addr.toUInt8 reg data).accesses ↔
      addr ≤ 255 ∧ asked = some (data.map UInt8.toNat) ∨ I2cRefused addr.toUInt8 reg := by
  unfold i2cWrite I2cRefused
  split_ifs with h
  · have hrefused : 0x7F < addr.toUInt8 ∨ 0xFFFF < reg := by
      rcases h with h | h | h
      · exact Or.inl h
      · exact Or.inr h
      · exact absurd hdata (Nat.not_le_of_lt h)
    exact iff_of_true (exact_nil _) (Or.inr hrefused)
  · obtain ⟨haddr, hrest⟩ := not_or.mp h
    have hreg := (not_or.mp hrest).1
    rw [or_iff_left (not_or.mpr ⟨haddr, hreg⟩)]
    cases asked with
    | none => exact iff_of_false (not_exact_none _) fun hi => by cases hi.2
    | some asked =>
      rw [Option.map_some, exact_one_iff, ← toNat_toUInt8_iff]
      constructor
      · exact fun hi => ⟨hi.1, congrArg some hi.2.2.symm⟩
      · exact fun ha => ⟨ha.1, regNumber_regBytes (Nat.le_of_not_lt hreg), (Option.some.inj ha.2).symm⟩

end Services

section At

variable {σ : Type} (f : Api.Features) (S : At.Services σ) (args : Text) (w : MqttExec.World σ)

open At (toU32 field split)

/-- The services of the hardware. -/
inductive Op where
  | gpioWrite
  | gpioRead
  | adcRead
  | i2cRead
  | i2cWrite

/-- What the arguments of a line ask for. -/
def askAt : Op → Text → Option Ask
  | .gpioWrite, args =>
    match args.splitOn ',' with
    | pin :: level :: _ => (toU32 pin).bind fun pin => (toU32 level).map (.gpioWrite pin)
    | _ => none
  | .gpioRead, args => (toU32 args).map .gpioRead
  | .adcRead, args => (toU32 args).map .adcRead
  | .i2cRead, args =>
    match args.splitOn ',' with
    | addr :: reg :: len :: _ =>
      (toU32 addr).bind fun addr => (toU32 reg).bind fun reg =>
        (toU32 len).map fun len => .i2cRead addr reg (some len)
    | _ => none
  | .i2cWrite, args =>
    match args.splitOn ',' with
    | addr :: reg :: data =>
      (toU32 addr).bind fun addr => (toU32 reg).bind fun reg =>
        (data.mapM toU32).map (.i2cWrite addr reg)
    | _ => none

theorem exact_cmdGpioW : Exact (askAt .gpioWrite args) (At.cmdGpioW f S args w).accesses := by
  unfold At.cmdGpioW askAt split
  dsimp only
  generalize args.splitOn ',' = fs
  split_ifs with hhws hlen
  · exact exact_nil _
  · exact exact_nil _
  · rcases fs with _ | ⟨pin, _ | ⟨level, rest⟩⟩
    · exact absurd (Nat.succ_ne_zero 1).symm hlen
    · exact absurd (Nat.succ_ne_succ_iff.mpr Nat.zero_ne_one) hlen
    · have hpin : field ((pin :: level :: rest).take 2) 0 = pin := rfl
      have hlevel : field ((pin :: level :: rest).take 2) 1 = level := rfl
      rw [hpin, hlevel]
      dsimp only
      cases toU32 pin with
      | none => exact exact_nil _
      | some pin =>
        cases toU32 level with
        | none => exact exact_nil _
        | some level =>
          dsimp only
          split_ifs with h
          · exact exact_gpioWrite S.board h
          · exact exact_nil _

theorem exact_cmdGpioR : Exact (askAt .gpioRead args) (At.cmdGpioR f S args w).accesses := by
  unfold At.cmdGpioR askAt
  dsimp only
  split_ifs
  · exact exact_nil _
  · cases toU32 args with
    | none => exact exact_nil _
    | some pin =>
      dsimp only
      split_ifs with h
      · exact exact_gpioRead S.board h
      · exact exact_nil _

theorem exact_cmdAdc : Exact (askAt .adcRead args) (At.cmdAdc f S args w).accesses := by
  unfold At.cmdAdc askAt
  dsimp only
  split_ifs
  · exact exact_nil _
  · cases toU32 args with
    | none => exact exact_nil _
    | some ch =>
      dsimp only
      split_ifs with h
      · exact (exact_adcRead_iff S.board).mpr (Or.inl h)
      · exact exact_nil _

/-- The address of a device that is read fits, or the line is refused. -/
def AtI2cReadFits (hws : Bool) (args : Text) : Prop :=
  hws = true → ∀ addr reg len, askAt .i2cRead args = some (.i2cRead addr reg (some len)) → len ≠ 0 →
    len ≤ i2cIoMax → addr ≤ 255 ∨ I2cRefused addr.toUInt8 reg

theorem exact_cmdI2cR_iff :
    Exact (askAt .i2cRead args) (At.cmdI2cR f S args w).accesses ↔ AtI2cReadFits f.hws args := by
  unfold At.cmdI2cR AtI2cReadFits askAt split
  dsimp only
  generalize args.splitOn ',' = fs
  cases f.hws with
  | false => exact iff_of_true (exact_nil _) fun h => absurd h Bool.false_ne_true
  | true =>
    rw [Bool.not_true, if_neg Bool.false_ne_true]
    rcases fs with _ | ⟨addr, _ | ⟨reg, _ | ⟨len, rest⟩⟩⟩
    · exact iff_of_true (exact_nil _) fun _ _ _ _ h => by cases h
    · exact iff_of_true (exact_nil _) fun _ _ _ _ h => by cases h
    · exact iff_of_true (exact_nil _) fun _ _ _ _ h => by cases h
    · have haddr : field ((addr :: reg :: len :: rest).take 3) 0 = addr := rfl
      have hreg : field ((addr :: reg :: len :: rest).take 3) 1 = reg := rfl
      have hlen : field ((addr :: reg :: len :: rest).take 3) 2 = len := rfl
      have hfields : ¬ ((addr :: reg :: len :: rest).take 3).length ≠ 3 := not_not_intro rfl
      rw [haddr, hreg, hlen, if_neg hfields]
      dsimp only
      cases toU32 addr with
      | none => exact iff_of_true (exact_nil _) fun _ _ _ _ h => by cases h
      | some addr =>
        cases toU32 reg with
        | none => exact iff_of_true (exact_nil _) fun _ _ _ _ h => by cases h
        | some reg =>
          cases toU32 len with
          | none => exact iff_of_true (exact_nil _) fun _ _ _ _ h => by cases h
          | some len =>
            dsimp only [Option.bind_some, Option.map_some]
            split_ifs with hbad
            · refine iff_of_true (exact_nil _) fun _ a r l h h0 hmax => ?_
              cases h
              exact (hbad.elim h0 (Nat.not_lt_of_le hmax)).elim
            · obtain ⟨h0, hmax⟩ := not_or.mp hbad
              refine (exact_i2cRead_iff S.board h0 fun l hl => Option.some.inj hl).trans ?_
              constructor
              · intro h _ a r l heq _ _
                cases heq
                exact h
              · exact fun h => h rfl addr reg len rfl h0 (Nat.le_of_not_lt hmax)

/-- The bytes of a write that are sent, where the buffer has room for `n`. -/
def sentBytes (n : ℕ) (data : List Text) : List UInt8 :=
  (data.take n).map fun s => ((toU32 s).getD 0).toUInt8

/-- Every field is a byte, and all of them are sent. -/
def DataFits (n : ℕ) (data : List Text) : Prop :=
  data.length ≤ n ∧ ∀ d ∈ data, ∃ v ≤ 255, toU32 d = some v

theorem mapM_sentBytes_iff (n : ℕ) (data : List Text) :
    data.mapM toU32 = some ((sentBytes n data).map UInt8.toNat) ↔ DataFits n data := by
  induction data generalizing n with
  | nil => exact iff_of_true (by rw [sentBytes, List.take_nil]; rfl) ⟨Nat.zero_le n, by simp⟩
  | cons d ds ih =>
    have hcons (o : List ℕ) : (d :: ds).mapM toU32 = some o ↔
        ∃ v vs, toU32 d = some v ∧ ds.mapM toU32 = some vs ∧ v :: vs = o := by
      rw [List.mapM_cons]
      cases toU32 d with
      | none => simp
      | some v =>
        cases ds.mapM toU32 with
        | none => simp
        | some vs => simp
    rw [hcons]
    cases n with
    | zero =>
      refine iff_of_false ?_ fun h => Nat.not_succ_le_zero _ h.1
      rintro ⟨v, vs, -, -, h⟩
      cases h
    | succ n =>
      have hsent : (sentBytes (n + 1) (d :: ds)).map UInt8.toNat =
          ((toU32 d).getD 0).toUInt8.toNat :: (sentBytes n ds).map UInt8.toNat := rfl
      rw [hsent]
      constructor
      · rintro ⟨v, vs, hv, hvs, heq⟩
        obtain ⟨hhead, rfl⟩ := List.cons.inj heq
        rw [hv, Option.getD_some] at hhead
        obtain ⟨hlen, hall⟩ := (ih n).mp hvs
        refine ⟨Nat.succ_le_succ hlen, List.forall_mem_cons.mpr ⟨⟨v, ?_, hv⟩, hall⟩⟩
        exact toNat_toUInt8_iff.mp hhead.symm
      · rintro ⟨hlen, hall⟩
        obtain ⟨⟨v, hle, hv⟩, htail⟩ := List.forall_mem_cons.mp hall
        refine ⟨v, _, hv, (ih n).mpr ⟨Nat.le_of_succ_le_succ hlen, htail⟩, ?_⟩
        rw [hv, Option.getD_some, toNat_toUInt8 hle]

/-- The address and the data of a write fit, or the line is refused. -/
def AtI2cWriteFits (hws : Bool) (args : Text) : Prop :=
  hws = true → ∀ addr reg data a r, args.splitOn ',' = addr :: reg :: data → data ≠ [] →
    toU32 addr = some a → toU32 reg = some r →
      a ≤ 255 ∧ DataFits i2cIoMax data ∨ I2cRefused a.toUInt8 r

theorem exact_cmdI2cW_iff :
    Exact (askAt .i2cWrite args) (At.cmdI2cW f S args w).accesses ↔ AtI2cWriteFits f.hws args := by
  unfold At.cmdI2cW AtI2cWriteFits askAt split
  dsimp only
  generalize args.splitOn ',' = fs
  rcases fs with _ | ⟨addr, _ | ⟨reg, _ | ⟨d, ds⟩⟩⟩
  · exact iff_of_true (exact_nil _) fun _ _ _ _ _ _ h => by cases h
  · exact iff_of_true (exact_nil _) fun _ _ _ _ _ _ h => by cases h
  · refine iff_of_true (exact_nil _) fun _ _ _ _ _ _ h hne => ?_
    cases h
    exact absurd rfl hne
  · have haddr : field ((addr :: reg :: d :: ds).take (i2cIoMax + 2)) 0 = addr := rfl
    have hreg : field ((addr :: reg :: d :: ds).take (i2cIoMax + 2)) 1 = reg := rfl
    have hdata : (((addr :: reg :: d :: ds).take (i2cIoMax + 2)).drop 2).map
        (fun s => ((toU32 s).getD 0).toUInt8) = sentBytes i2cIoMax (d :: ds) := rfl
    have hlen : ¬ ((addr :: reg :: d :: ds).take (i2cIoMax + 2)).length < 3 := by
      simp only [List.take_succ_cons, List.length_cons]
      omega
    rw [haddr, hreg, hdata, if_neg hlen]
    dsimp only
    cases haddr' : toU32 addr with
    | none =>
      refine iff_of_true (exact_nil _) fun _ _ _ _ _ _ h _ ha => ?_
      cases h
      rw [haddr'] at ha
      cases ha
    | some a =>
      cases hreg' : toU32 reg with
      | none =>
        refine iff_of_true (exact_nil _) fun _ _ _ _ _ _ h _ _ hr => ?_
        cases h
        rw [hreg'] at hr
        cases hr
      | some r =>
        dsimp only [Option.bind_some]
        unfold At.i2cWrite
        cases f.hws with
        | false => exact iff_of_true (exact_nil _) fun h => absurd h Bool.false_ne_true
        | true =>
          rw [if_pos rfl]
          have hsent : (sentBytes i2cIoMax (d :: ds)).length ≤ i2cIoMax := by
            rw [sentBytes, List.length_map]
            exact List.length_take_le _ _
          have hwrite := exact_i2cWrite_iff S.board a r ((d :: ds).mapM toU32) hsent
          rw [mapM_sentBytes_iff] at hwrite
          refine Iff.trans hwrite ?_
          constructor
          · intro h _ addr' reg' data' a' r' heq _ ha hr
            cases heq
            rw [haddr'] at ha
            rw [hreg'] at hr
            cases ha
            cases hr
            exact h
          · exact fun h => h rfl addr reg (d :: ds) a r rfl (List.cons_ne_nil d ds) haddr' hreg'

end At

end AtNode.Narrowing
