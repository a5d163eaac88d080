import AtNode.Arduino.KeyReport
import AtNode.Lib.PulseCode

/-!
# Infrared frames of the Arduino firmware

The encoders write marks and spaces in microseconds into a buffer of their own and send them. The
NEC frame always has 32 bits; the SIRC frame has as many as the caller says. The commands over AT and
HTTP read the word and the number of bits from their arguments.
-/

namespace AtNode.Infrared

open CString PulseCode
open ArduinoKeys (comma)
open ArduinoString (Str ascii indexOfChar substring equalsIgnoreCase)

section Encoders

/-- The list that `ir_send_raw` hands to the driver, one item for each entry. -/
def irSendRaw (timings : List UInt16) : Option (List UInt16) :=
  if timings.length = 0 ∨ 256 < timings.length then none else some timings

def necPair (bit : Bool) : UInt16 × UInt16 := (560, if bit then 1690 else 560)

/-- The buffer of `ir_send_nec`; without a result it writes past its end. -/
def irSendNec (data : UInt32) : Option (List UInt16) := do
  let timings ← put 68 [] 9000
  let timings ← put 68 timings 4500
  let timings ← putPairs 68 (fun i => necPair (data.toNat.testBit i)) 32 timings
  put 68 timings 560

def sircPair (bit : Bool) : UInt16 × UInt16 := (if bit then 1200 else 600, 600)

/-- The buffer of `ir_send_sirc`. -/
def irSendSirc (data : UInt32) (bits : ℤ) : Option (List UInt16) := do
  let timings ← put (2 + 2 * 20) [] 2400
  let timings ← put (2 + 2 * 20) timings 600
  putPairs (2 + 2 * 20) (fun i => sircPair (data.toNat.testBit i)) bits.toNat timings

/-- The loop that reads the timings of a raw frame, while `n` places of the buffer are left. -/
def rawLoop (data : Str) : ℕ → ℕ → List UInt16 → Option (List UInt16)
  | 0, _, timings => some timings
  | n + 1, start, timings =>
    match indexOfChar data comma start with
    | some c =>
      let part := if 0 < c then substring data start c else data.drop start
      (put 256 timings (toU16 (atoi part))).bind (rawLoop data n (c + 1))
    | none => put 256 timings (toU16 (atoi (data.drop start)))

/-- What a command passes on. -/
inductive Frame where
  | nec (data : UInt32)
  | sirc (data : UInt32) (bits : ℤ)
  | raw (data : Str)
  deriving DecidableEq

def Frame.send : Frame → Option (List UInt16)
  | .nec data => (irSendNec data).bind irSendRaw
  | .sirc data bits => (irSendSirc data bits).bind irSendRaw
  | .raw data => (rawLoop data 256 0 []).bind irSendRaw

end Encoders

section Commands

/-- `AT+IR=`. Without a second comma the word and the number of bits are read from the same text. -/
def atIr (args : Str) : Option Frame :=
  match indexOfChar args comma 0 with
  | some c1 =>
    if 0 < c1 then
      let proto := substring args 0 c1
      let data := args.drop (c1 + 1)
      if equalsIgnoreCase proto "NEC" then some (.nec (strtoul data))
      else if equalsIgnoreCase proto "SIRC" then
        match indexOfChar data comma 0 with
        | some c2 => some (.sirc (strtoul (substring data 0 c2)) (atoi (data.drop (c2 + 1))))
        | none => some (.sirc (strtoul data) (atoi data))
      else if equalsIgnoreCase proto "RAW" then some (.raw data)
      else none
    else none
  | none => none

/-- `ir/send` over HTTP. -/
def handleIrSend (proto data bitsStr : Str) : Option Frame :=
  if proto.length = 0 ∨ data.length = 0 then none
  else
    let bits := if atoi bitsStr ≤ 0 then 32 else atoi bitsStr
    if equalsIgnoreCase proto "NEC" then some (.nec (strtoul data))
    else if equalsIgnoreCase proto "SIRC" then some (.sirc (strtoul data) bits)
    else if equalsIgnoreCase proto "RAW" then some (.raw data)
    else none

inductive Command where
  | at (args : Str)
  | http (proto data bits : Str)

def Command.frame : Command → Option Frame
  | .at args => atIr args
  | .http proto data bits => handleIrSend proto data bits

end Commands

section Protocols

/-- A bit of the NEC protocol: a mark of 560 and a space of 560 or 1690. -/
def necBit (mark space : UInt16) : Option Bool :=
  if mark = 560 then if space = 1690 then some true else if space = 560 then some false else none
  else none

/-- A bit of the SIRC protocol: a mark of 1200 or 600 and a space of 600. -/
def sircBit (mark space : UInt16) : Option Bool :=
  if space = 600 then if mark = 1200 then some true else if mark = 600 then some false else none
  else none

/-- The word of an NEC frame: the header, 32 bits from the lowest on, and a mark at the end. -/
def decodeNec : List UInt16 → Option ℕ
  | 9000 :: 4500 :: rest =>
    match readPairs necBit rest with
    | some (bits, [560]) => if bits.length = 32 then some (wordOf bits) else none
    | _ => none
  | _ => none

/-- The word and the number of bits of a SIRC frame. -/
def decodeSirc : List UInt16 → Option (ℕ × ℕ)
  | 2400 :: 600 :: rest =>
    match readPairs sircBit rest with
    | some (bits, []) => some (wordOf bits, bits.length)
    | _ => none
  | _ => none

variable {data : UInt32} {bits : ℤ} {n : ℕ}

theorem irSendRaw_of_length {timings : List UInt16} (hpos : 0 < timings.length)
    (hle : timings.length ≤ 256) : irSendRaw timings = some timings := by
  rw [irSendRaw, if_neg (by omega)]

theorem irSendNec_eq (data : UInt32) : irSendNec data =
    some ([9000, 4500] ++ pairs (fun i => necPair (data.toNat.testBit i)) 32 ++ [560]) := by
  have hhead : [(9000 : UInt16), 4500].length ≤ 68 := by decide
  have hfill := putPairs_eq (fun i => necPair (data.toNat.testBit i)) hhead 32
  rw [if_pos (by decide)] at hfill
  unfold irSendNec
  simp only [Option.bind_eq_bind]
  rw [put_of_lt (by decide), Option.bind_some, put_of_lt (by decide), Option.bind_some,
    List.nil_append, List.singleton_append, hfill, Option.bind_some, put_of_lt]
  rw [List.length_append, length_pairs]
  decide

theorem irSendSirc_eq (data : UInt32) (bits : ℤ) : irSendSirc data bits =
    if bits ≤ 20 then some ([2400, 600] ++ pairs (fun i => sircPair (data.toNat.testBit i)) bits.toNat)
    else none := by
  have hhead : [(2400 : UInt16), 600].length ≤ 2 + 2 * 20 := by decide
  have hfill := putPairs_eq (fun i => sircPair (data.toNat.testBit i)) hhead bits.toNat
  have hroom : [(2400 : UInt16), 600].length + 2 * bits.toNat ≤ 2 + 2 * 20 ↔ bits ≤ 20 := by
    simp only [List.length_cons, List.length_nil]
    omega
  unfold irSendSirc
  simp only [Option.bind_eq_bind]
  rw [put_of_lt (by decide), Option.bind_some, put_of_lt (by decide), Option.bind_some,
    List.nil_append, List.singleton_append, hfill]
  exact if_congr hroom rfl rfl

theorem decodeNec_timings (data : UInt32) :
    decodeNec ([9000, 4500] ++ pairs (fun i => necPair (data.toNat.testBit i)) 32 ++ [560]) =
      some data.toNat := by
  have hbit : ∀ x, necBit (necPair x).1 (necPair x).2 = some x := by decide
  have hstop : [(560 : UInt16)].length ≤ 1 := Nat.le_refl 1
  have hread := readPairs_pairs hbit data.toNat 32 hstop
  have hword : wordOf (bitsOf data.toNat 32) = data.toNat := by
    rw [wordOf_bitsOf, Nat.mod_eq_of_lt data.toNat_lt]
  rw [List.append_assoc, List.cons_append, List.cons_append, List.nil_append, decodeNec, hread]
  simp only [length_bitsOf, if_true, hword]

theorem decodeSirc_timings (data : UInt32) (n : ℕ) :
    decodeSirc ([2400, 600] ++ pairs (fun i => sircPair (data.toNat.testBit i)) n) =
      some (data.toNat % 2 ^ n, n) := by
  have hbit : ∀ x, sircBit (sircPair x).1 (sircPair x).2 = some x := by decide
  have hstop : ([] : List UInt16).length ≤ 1 := Nat.zero_le 1
  have hread := readPairs_pairs hbit data.toNat n hstop
  rw [List.append_nil] at hread
  rw [List.cons_append, List.cons_append, List.nil_append, decodeSirc, hread]
  simp only [wordOf_bitsOf, length_bitsOf]

/-- A raw frame stays in its buffer: the loop counts the places. -/
theorem rawLoop_eq_some (data : Str) (n start : ℕ) (timings : List UInt16)
    (h : timings.length + n ≤ 256) : ∃ more, more.length ≤ n ∧ (0 < n → 0 < more.length) ∧
      rawLoop data n start timings = some (timings ++ more) := by
  induction n generalizing start timings with
  | zero => exact ⟨[], Nat.le_refl _, fun h => absurd h (Nat.lt_irrefl 0), by rw [List.append_nil]; rfl⟩
  | succ n ih =>
    rw [rawLoop]
    cases indexOfChar data comma start with
    | none => exact ⟨[_], Nat.succ_le_succ (Nat.zero_le n), fun _ => Nat.one_pos, put_of_lt (by omega)⟩
    | some c =>
      dsimp only
      generalize toU16 (atoi (if 0 < c then substring data start c else data.drop start)) = v
      rw [put_of_lt (by omega), Option.bind_some]
      obtain ⟨more, hle, -, hmore⟩ := ih (c + 1) (timings ++ [v])
        (by rw [List.length_append, List.length_singleton]; omega)
      exact ⟨v :: more, Nat.succ_le_succ hle, fun _ => Nat.succ_pos _,
        by rw [hmore, List.append_assoc, List.singleton_append]⟩

end Protocols

section Soundness

/-- The encoder stays in its buffer, and what it produces decodes to the word and the number of bits
it was given; a raw frame has neither. -/
def Frame.Sound (f : Frame) : Prop :=
  ∃ timings, f.send = some timings ∧
    match f with
    | .nec data => decodeNec timings = some data.toNat
    | .sirc data bits => ∃ n : ℕ, (n : ℤ) = bits ∧ decodeSirc timings = some (data.toNat, n)
    | .raw _ => True

/-- A SIRC frame has up to 20 bits, and its word fits them. -/
def Frame.Fits : Frame → Prop
  | .sirc data bits => 0 ≤ bits ∧ bits ≤ 20 ∧ data.toNat < 2 ^ bits.toNat
  | .nec _ | .raw _ => True

theorem send_nec (data : UInt32) : (Frame.nec data).send =
    some ([9000, 4500] ++ pairs (fun i => necPair (data.toNat.testBit i)) 32 ++ [560]) := by
  rw [Frame.send, irSendNec_eq, Option.bind_some]
  apply irSendRaw_of_length
  all_goals
    rw [List.length_append, List.length_append, length_pairs]
    decide

theorem send_sirc (data : UInt32) (bits : ℤ) : (Frame.sirc data bits).send =
    if bits ≤ 20 then some ([2400, 600] ++ pairs (fun i => sircPair (data.toNat.testBit i)) bits.toNat)
    else none := by
  rw [Frame.send, irSendSirc_eq]
  split_ifs with hroom
  · rw [Option.bind_some]
    apply irSendRaw_of_length
    all_goals
      rw [List.length_append, length_pairs, List.length_cons, List.length_singleton]
      omega
  · rfl

theorem send_raw (data : Str) : ∃ timings, (Frame.raw data).send = some timings := by
  obtain ⟨more, hle, hpos, hmore⟩ := rawLoop_eq_some data 256 0 [] (by decide)
  exact ⟨more, by rw [Frame.send, hmore, Option.bind_some, List.nil_append,
    irSendRaw_of_length (hpos (by decide)) hle]⟩

theorem sound_iff_fits (f : Frame) : f.Sound ↔ f.Fits := by
  cases f with
  | nec data => exact iff_of_true ⟨_, send_nec data, decodeNec_timings data⟩ trivial
  | raw data =>
    obtain ⟨timings, hsend⟩ := send_raw data
    exact iff_of_true ⟨timings, hsend, trivial⟩ trivial
  | sirc data bits =>
    constructor
    · rintro ⟨timings, hsend, n, rfl, hdecode⟩
      rw [send_sirc] at hsend
      split_ifs at hsend with hroom
      rw [← Option.some.inj hsend, decodeSirc_timings, Option.some_inj, Prod.mk.injEq] at hdecode
      refine ⟨Int.natCast_nonneg n, hroom, ?_⟩
      rw [← hdecode.1]
      exact Nat.mod_lt _ (Nat.two_pow_pos _)
    · rintro ⟨hpos, hroom, hlt⟩
      refine ⟨_, by rw [send_sirc, if_pos hroom], bits.toNat, Int.toNat_of_nonneg hpos, ?_⟩
      rw [decodeSirc_timings, Nat.mod_eq_of_lt hlt]

/-- Every frame that a command passes on is sound exactly when its SIRC frames fit. -/
theorem ir_encoders_iff (cmd : Command) :
    (∀ f, cmd.frame = some f → f.Sound) ↔ ∀ f, cmd.frame = some f → f.Fits :=
  forall_congr' fun f => imp_congr_right fun _ => sound_iff_fits f

/-- `ir/send?protocol=SIRC&data=0xA90`, with the default of 32 bits -/
theorem default_bits_overflow :
    (Command.http (ascii "SIRC") (ascii "0xA90") []).frame = some (.sirc 0xA90 32) ∧
      irSendSirc 0xA90 32 = none ∧
      ¬ ∀ f, (Command.http (ascii "SIRC") (ascii "0xA90") []).frame = some f → f.Sound := by
  refine ⟨by decide, by decide, fun h => ?_⟩
  obtain ⟨timings, hsend, -⟩ := h (.sirc 0xA90 32) (by decide)
  exact absurd hsend (by decide +revert)

end Soundness

end AtNode.Infrared
