import AtNode.Esp32.AtLineEnds
import AtNode.Esp32.RequestNarrowing

/-!
# The last line of an AT response

Every line with something left after trimming is answered with data lines and one last line, `OK` or an
error, whatever its arguments are and whatever is compiled in. No data line begins with the letter of `OK`
or of an error: the text of a format string comes first, and where it does not fit nothing is written at
all.

Five commands show texts of the registry or of the tunnel as they are stored, line ends included. A host
sees the response framed exactly when none of the texts that the command shows stops it.
-/

namespace AtNode.At

open Config Heapless ConfigReplies Api Args
open MqttExec (World)
open Pairs (splitOnce)

/-- Data and a last line are emitted, and no data stops the response exactly when `p` holds. -/
def Answers (ls : List Text) (p : Prop) : Prop :=
  ∃ data last, ls = data ++ [last] ∧ Final last ∧ Plain last ∧ ((∀ l ∈ data, Quiet l) ↔ p)

/-- The values that are not stored as they are given have no line ends. -/
def Normal (cfg : Cfg) : Prop :=
  ∀ k : Key, k.flags ≠ .none → k.flags ≠ .writeOnly → Plain (getStr cfg k)

/-- The stored texts that the answer to a line shows, with the quotation mark behind them there. -/
def shown {σ : Type} (f : Features) (S : Services σ) (line : Text) (w : World σ) : List Text :=
  if line = "AT+KEYS".toList then
    (tableDef.filter (·.flags ≠ .writeOnly)).map fun k => getStr w.cfg k ++ ['"']
  else if line = "AT+STATUS".toList then [getStr w.cfg .deviceName]
  else if line = "AT+WIFI=status".toList then
    -- a name that does not fit the buffer is left out
    if byteLen (getStr w.cfg .wifiSsid) ≤ 74 then [getStr w.cfg .wifiSsid] else []
  else if line = "AT+TUNNEL=status".toList ∧ f.rathole then
    [getStr w.cfg .tunnelServer, getStr w.cfg .tunnelService, getStr w.cfg .tunnelLocal,
      (S.tunnel w.peri).lastError].map (· ++ ['"'])
  else
    match strip "AT+GET=".toList line with
    | some key => (get w.cfg key).toOption.toList
    | none => []

variable {σ : Type} {f : Features} {S : Services σ} {flash : Text → Bool} {erases : Bool}
variable {args l : Text} {w : World σ} {data ls : List Text} {p q : Prop}

section Responses

/-- The host sees an answer framed exactly when no data stops it. -/
theorem Answers.framed_iff (h : Answers ls p) : Framed (received ls) ↔ p := by
  obtain ⟨data, last, rfl, hfinal, hplain, hquiet⟩ := h
  have hlast : last.splitOnP lineEnd = [last] :=
    List.splitOnP_eq_singleton fun c hc => by simp [hplain c hc]
  have hreceived : received (data ++ [last]) = received data ++ [last] := by
    rw [received, List.flatMap_append, List.flatMap_singleton, hlast]
    rfl
  have hdata : (∀ l ∈ received data, ¬ Final l) ↔ ∀ l ∈ data, Quiet l := by
    rw [received, List.forall_mem_flatMap]
    rfl
  rw [← hquiet, ← hdata, hreceived]
  constructor
  · rintro ⟨data', last', heq, -, hnone⟩
    rwa [(List.append_inj' heq rfl).1]
  · intro hnone
    exact ⟨_, last, rfl, hfinal, hnone⟩

theorem Answers.congr (h : Answers ls p) (hpq : p ↔ q) : Answers ls q := by
  obtain ⟨data, last, heq, hfinal, hplain, hquiet⟩ := h
  exact ⟨data, last, heq, hfinal, hplain, hquiet.trans hpq⟩

theorem answers_answer (h : (∀ l ∈ data, Quiet l) ↔ p) : Answers (answer data w).lines p :=
  ⟨data, okLine, rfl, Or.inl rfl, by decide, h⟩

theorem answers_lines (h : ∀ l ∈ data, PlainLine l) : Answers (answer data w).lines True :=
  answers_answer (iff_true_intro fun l hl => (h l hl).quiet)

theorem answers_done : Answers (answer [] w).lines True := answers_lines fun _ hl => by cases hl

theorem answers_line (h : PlainLine l) : Answers (answer [l] w).lines True := by
  apply answers_lines
  intro l' hl'
  rwa [List.mem_singleton.mp hl']

theorem answers_one (h : Quiet l ↔ p) : Answers (answer [l] w).lines p := by
  apply answers_answer
  rwa [List.forall_mem_singleton]

theorem final_errLine (msg : String) : Final (errLine msg) := by
  have h : "ERROR".toList <+: "ERROR ".toList := by decide
  exact Or.inr (h.trans (List.prefix_append _ _))

theorem answers_error {msg : String} (h : Plain msg.toList) : Answers [errLine msg] True :=
  ⟨[], errLine msg, rfl, final_errLine msg, plain_append (by decide) h,
    iff_true_intro fun _ hl => by cases hl⟩

theorem answers_fail {msg : String} (h : Plain msg.toList) : Answers (fail msg w).lines True :=
  answers_error h

theorem answers_accept (r : Bool × World σ) {msg : String} (h : Plain msg.toList) :
    Answers (accept r msg).lines True := by
  unfold accept
  split_ifs
  · exact answers_done
  · exact answers_fail h

theorem answers_after {α : Type} (o : Hws.Outcome α) {reply : α → Response σ}
    (h : ∀ a, Answers (reply a).lines True) : Answers (after o reply).lines True := h o.result

theorem answers_ite {c : Prop} [Decidable c] {r r' : Response σ} (h : Answers r.lines p)
    (h' : Answers r'.lines p) : Answers (if c then r else r').lines p := by
  split_ifs
  · exact h
  · exact h'

end Responses

section Stored

variable {cfg : Cfg} {k : Key} {raw v s : Text}

theorem plain_validate (h : validate k raw = .ok v) (hnone : k.flags ≠ .none)
    (hsecret : k.flags ≠ .writeOnly) : Plain v := by
  unfold validate at h
  cases hflag : k.flags with
  | none => exact absurd hflag hnone
  | writeOnly => exact absurd hflag hsecret
  | int | int60 =>
    rw [hflag] at h
    obtain ⟨n, -, -, rfl⟩ := validateInt_ok h
    exact plain_digits n
  | bool =>
    rw [hflag] at h
    dsimp only at h
    split_ifs at h <;>
      · cases h
        decide

open CfgStore in
theorem normal_run (mac : Mac) (es : List Event) :
    Run.Always step (fun d => Normal d.cfg) (boot mac fun _ => none) es := by
  refine values_run (P := fun k v => k.flags ≠ .none → k.flags ≠ .writeOnly → Plain v)
    (fun mac k hnone hsecret => ?_) plain_validate mac es
  have hset : (load mac fun _ => none).table k = none := rfl
  rw [getStr, hset, Option.getD_none]
  cases k with
  | deviceName | deviceHostname => exact absurd rfl hnone
  | mqttPort => exact (by decide : Plain "8883".toList)
  | ratholeEnable | tunnelEnable | tunnelRetry => exact (by decide : Plain "1".toList)
  | _ => exact plain_nil

theorem plain_name (k : Key) : Plain k.name := by
  cases k with
  | _ => decide

theorem get_ok (h : Config.get cfg s = .ok v) :
    ∃ k : Key, k.name = s ∧ k.flags ≠ .writeOnly ∧ v = getStr cfg k := by
  unfold Config.get at h
  cases hfind : tableDef.find? (fun k => k.name = s) with
  | none =>
    rw [hfind] at h
    cases h
  | some k =>
    rw [hfind] at h
    dsimp only at h
    split_ifs at h with hk
    have hname := List.find?_some hfind
    cases h
    exact ⟨k, of_decide_eq_true hname, hk, rfl⟩

theorem stops_entry (cfg : Cfg) (k : Key) (s : Text) :
    Stops (Json.render (entryValue cfg k) ++ s) ↔
      (k.flags ≠ .writeOnly ∧ Stops (getStr cfg k ++ ['"'])) ∨ Stops s := by
  have hkey : Plain "\x7b\"key\":\"".toList := by decide
  have hquote : Plain "\"".toList := by decide
  have hvalue : Plain ",\"value\":\"".toList := by decide
  have hsecret : Plain (",\"secret\":true".toList ++ ['\x7d']) := by decide
  have hend : Plain ['\x7d'] := by decide
  by_cases hk : k.flags = .writeOnly
  · rw [render_entry_secret hk, or_iff_right fun h => h.1 hk]
    simp only [List.append_assoc _ _ s]
    rw [stops_append hkey, stops_append (plain_name k), stops_append hquote, ← List.append_assoc,
      stops_append hsecret]
  · rw [render_entry_readable hk, and_iff_right hk]
    simp only [List.append_assoc _ _ s]
    rw [stops_append hkey, stops_append (plain_name k), stops_append hquote, stops_append hvalue]
    exact stops_append_quote.trans (or_congr_right (stops_append hend))

theorem stops_elements (cfg : Cfg) (ks : List Key) :
    Stops (Json.renderElements (ks.map (entryValue cfg))) ↔
      ∃ k ∈ ks, k.flags ≠ .writeOnly ∧ Stops (getStr cfg k ++ ['"']) := by
  induction ks with
  | nil => exact iff_of_false (not_stops_of_plain (by decide : Plain [']'])) fun ⟨_, hk, _⟩ => by cases hk
  | cons k ks ih =>
    have hcomma : Plain [','] := by decide
    rw [List.map_cons, Json.renderElements, ← List.singleton_append, stops_append hcomma, stops_entry, ih,
      List.exists_mem_cons_iff]

theorem stops_listValue (cfg : Cfg) : Stops (Json.render (listValue cfg)) ↔
    ∃ k ∈ tableDef, k.flags ≠ .writeOnly ∧ Stops (getStr cfg k ++ ['"']) := by
  have hopen : Plain ['['] := by decide
  obtain ⟨k, ks, hks⟩ : ∃ k ks, tableDef = k :: ks := ⟨_, _, rfl⟩
  rw [listValue, hks, List.map_cons, Json.render, ← List.singleton_append, stops_append hopen, stops_entry,
    stops_elements, List.exists_mem_cons_iff]

end Stored

section Settings

theorem answers_cmdSet : Answers (cmdSet flash args w).lines True := by
  unfold cmdSet
  split
  · split_ifs
    · exact answers_fail (by decide)
    · split
      · exact answers_done
      · exact answers_fail (by decide)
      · exact answers_fail (by decide)
      · exact answers_fail (by decide)
  · exact answers_fail (by decide)

theorem answers_cmdGet (hb : Bounded w.cfg) : Answers (cmdGet args w).lines
    (∀ t ∈ (Config.get w.cfg args).toOption.toList, ¬ Stops t) := by
  have hnone : ∀ t ∈ ([] : List Text), ¬ Stops t := fun _ ht => by cases ht
  unfold cmdGet atGet
  cases hget : Config.get w.cfg args with
  | error e =>
    apply Answers.congr (p := True) _ (iff_of_true trivial hnone)
    cases e with
    | unknownKey => exact answers_error (show Plain "unknown key".toList by decide)
    | writeOnly => exact answers_error (show Plain "write-only".toList by decide)
    | badValue => exact answers_error (show Plain "bad value".toList by decide)
    | flash => exact answers_error (show Plain "bad value".toList by decide)
  | ok val =>
    obtain ⟨k, rfl, hk, rfl⟩ := get_ok hget
    have hmax : valueMax k ≤ 95 := by
      cases k with
      | _ => decide
    have hvalue := (hb k).trans hmax
    have hname := byteLen_name_le k
    have hfront : byteLen "+GET:".toList = 5 := by decide
    have hequals : byteLen "=".toList = 1 := by decide
    have hcap : listCap = 1600 := rfl
    have hfits : write listCap [] ["+GET:".toList, k.name, "=".toList, getStr w.cfg k] =
        ("+GET:".toList ++ k.name ++ "=".toList ++ getStr w.cfg k, true) := by
      rw [write_fits]
      · simp
      · simp only [List.flatten_cons, List.flatten_nil, List.append_nil, byteLen_append, byteLen_nil]
        omega
    have hhead : PlainLine ("+GET:".toList ++ k.name ++ "=".toList) :=
      ⟨by exact ⟨nofun, nofun⟩, plain_append (plain_append (by decide) (plain_name k)) (by decide)⟩
    dsimp only
    rw [hfits, if_pos rfl]
    apply answers_one (w := w)
    rw [quiet_append hhead (List.append_ne_nil_of_right_ne_nil _ (by decide)), Except.toOption,
      Option.toList_some, List.forall_mem_singleton]

theorem answers_cmdKeys (hb : Bounded w.cfg) : Answers (cmdKeys w).lines
    (∀ k ∈ tableDef, k.flags ≠ .writeOnly → ¬ Stops (getStr w.cfg k ++ ['"'])) := by
  have hlines : atKeys w.cfg = ["+KEYS:".toList ++ Json.render (listValue w.cfg), okLine] := by
    have heq := atKeys_eq hb
    rw [respond] at heq
    injection heq with heq
    injection heq
  rw [cmdKeys, hlines]
  apply answers_one (w := w)
  rw [quiet_append (by decide) (by decide), stops_listValue]
  simp only [not_exists, not_and]

theorem answers_cmdNvs : Answers (cmdNvs erases args w).lines True := by
  unfold cmdNvs
  split_ifs
  · split
    · exact answers_line (by decide)
    · exact answers_fail (by decide)
  · exact answers_fail (by decide)

theorem answers_cmdWifi (hargs : args ≠ "status".toList) : Answers (cmdWifi flash args w).lines True := by
  unfold cmdWifi
  split
  · split_ifs
    · exact answers_accept _ (by decide)
    · exact answers_accept _ (by decide)
    · exact answers_fail (by decide)
  · rw [if_neg hargs]
    exact answers_fail (by decide)

/-- The name is left out where it does not fit. -/
theorem answers_wifiStatus : Answers (cmdWifi flash "status".toList w).lines
    (∀ t ∈ if byteLen (getStr w.cfg .wifiSsid) ≤ 74 then [getStr w.cfg .wifiSsid] else [], ¬ Stops t) := by
  have hsplit : splitOnce ',' "status".toList = none := by decide
  have hfront : byteLen "+WIFI:".toList = 6 := by decide
  have hwrite : (write 80 [] (formatArgs ["+WIFI:".toList] [getStr w.cfg .wifiSsid])).1 =
      put 80 "+WIFI:".toList (getStr w.cfg .wifiSsid) := write_pair (by decide)
  unfold cmdWifi
  rw [hsplit]
  dsimp only
  rw [if_pos rfl, hwrite]
  apply answers_one
  split_ifs with hfits
  · rw [put_fits (by omega), quiet_append (by decide) (by decide), List.forall_mem_singleton]
  · rw [put_full (by omega)]
    exact iff_of_true (by decide : PlainLine "+WIFI:".toList).quiet fun _ ht => by cases ht

end Settings

section Network

theorem answers_cmdMqtt (hn : Normal w.cfg) : Answers (cmdMqtt f S flash args w).lines True := by
  unfold cmdMqtt
  apply answers_ite (answers_fail (by decide))
  apply answers_ite (answers_accept _ (by decide))
  apply answers_ite answers_done
  refine answers_ite (answers_line (plainLine_buffer (by decide) (by decide) (by decide) ?_)) ?_
  · rw [List.forall_mem_cons, List.forall_mem_cons, List.forall_mem_singleton]
    refine ⟨?_, hn .mqttAuto (by decide) (by decide), hn .mqttEnable (by decide) (by decide)⟩
    split_ifs <;> decide
  · exact answers_ite (answers_accept _ (by decide)) (answers_fail (by decide))

theorem answers_cmdHttp (hn : Normal w.cfg) : Answers (cmdHttp f S flash args w).lines True := by
  unfold cmdHttp
  refine answers_ite (answers_line (plainLine_buffer (by decide) (by decide) (by decide) ?_)) ?_
  · rw [List.forall_mem_cons, List.forall_mem_singleton]
    refine ⟨?_, hn .httpAuto (by decide) (by decide)⟩
    split_ifs <;> decide
  · exact answers_ite (answers_ite (answers_fail (by decide)) (answers_accept _ (by decide)))
      (answers_fail (by decide))

theorem plain_signed (n : ℤ) : Plain (signed n) := by
  rw [signed]
  split_ifs
  · exact plain_append (s := ['-']) (by decide) (plain_digits _)
  · exact plain_digits _

theorem plain_mqttStatusStr : Plain (mqttStatusStr S w) := by
  unfold mqttStatusStr
  split_ifs <;> decide

theorem answers_cmdStatus (hb : Bounded w.cfg) : Answers (cmdStatus S w).lines
    (¬ Stops (getStr w.cfg .deviceName)) := by
  have hname : byteLen (getStr w.cfg .deviceName) ≤ 95 := hb .deviceName
  have hfront : byteLen "device=".toList = 7 := by decide
  have hcap : listCap = 1600 := rfl
  rw [cmdStatus]
  apply answers_answer
  rw [buffer_fits (by omega), List.forall_mem_cons, quiet_append (by decide) (by decide)]
  refine and_iff_left fun l hl => PlainLine.quiet ?_
  simp only [List.mem_cons, List.not_mem_nil, or_false] at hl
  rcases hl with rfl | rfl | rfl | rfl | rfl | rfl | rfl | rfl
  · decide
  · decide
  · split_ifs
    · decide
    · decide
  · split
    · exact plainLine_buffer (by decide) (by decide) (by decide)
        (List.forall_mem_singleton.mpr (plain_ipText _))
    · decide
  · refine plainLine_buffer (by decide) (by decide) (by decide) ?_
    rw [List.forall_mem_map]
    exact fun b _ => (plain_byteHex b).1
  · exact plainLine_buffer (by decide) (by decide) (by decide)
      (List.forall_mem_singleton.mpr (plain_signed _))
  · exact plainLine_buffer (by decide) (by decide) (by decide)
      (List.forall_mem_singleton.mpr plain_mqttStatusStr)
  · split_ifs
    · decide
    · decide

theorem plainLine_tunnelEn (hn : Normal w.cfg) : PlainLine (tunnelEnLine w) :=
  plainLine_buffer (by decide) (by decide) (by decide)
    (List.forall_mem_singleton.mpr (hn .ratholeEnable (by decide) (by decide)))

theorem answers_cmdTunnel (hn : Normal w.cfg) (hargs : ¬ (args = "status".toList ∧ f.rathole)) :
    Answers (cmdTunnel f S flash args w).lines True := by
  unfold cmdTunnel
  by_cases hf : f.rathole = true
  · have hstatus : args ≠ "status".toList := fun h => hargs ⟨h, hf⟩
    rw [if_neg (by simp [hf]), if_neg hstatus]
    refine answers_ite (answers_line (plainLine_tunnelEn hn)) ?_
    split
    · exact answers_accept _ (by decide)
    · dsimp only
      apply answers_ite (answers_ite (answers_fail (by decide)) (answers_accept _ (by decide)))
      apply answers_ite (answers_accept _ (by decide))
      exact answers_ite answers_done (answers_ite answers_done (answers_fail (by decide)))
  · rw [if_pos (by simpa using hf)]
    exact answers_fail (by decide)

end Network

section Tunnel

theorem stops_statusJson {cfg : Cfg} (hb : Bounded cfg) (hn : Normal cfg) (t : Tunnel) :
    Stops (statusJson cfg t) ↔ ∃ v ∈ [getStr cfg .tunnelServer, getStr cfg .tunnelService,
      getStr cfg .tunnelLocal, t.lastError], Stops (v ++ ['"']) := by
  have hretry : Plain (getStr cfg .tunnelRetry) := hn .tunnelRetry (by decide) (by decide)
  rw [(statusJson_fits hb t).1, statusFormat, statusArgs]
  simp only [formatArgs, List.flatten_cons, List.flatten_nil, List.exists_mem_cons_iff, List.not_mem_nil,
    false_and, exists_false, or_false]
  rw [stops_append (by decide), stops_append (plain_boolText _), stops_append (by decide)]
  refine (stops_append_closed (by decide) (by decide)).trans (or_congr_right ?_)
  refine (stops_append_closed (by decide) (by decide)).trans (or_congr_right ?_)
  refine (stops_append_closed (by decide) (by decide)).trans (or_congr_right ?_)
  rw [stops_append (plain_boolText _), stops_append (by decide), stops_append hretry,
    stops_append (by decide), stops_append (plain_boolText _), stops_append (by decide),
    stops_append (plain_boolText _), stops_append (by decide), stops_append (plain_boolText _),
    stops_append (by decide), stops_append (plain_boolText _), stops_append (by decide),
    stops_append (plain_digits _), stops_append (by decide), stops_append (plain_digits _),
    stops_append (by decide), stops_append (plain_digits _), stops_append (by decide)]
  exact (stops_append_closed (by decide) (by decide)).trans (or_iff_left id)

theorem answers_tunnelStatus (hb : Bounded w.cfg) (hn : Normal w.cfg) (hf : f.rathole = true) :
    Answers (cmdTunnel f S flash "status".toList w).lines
      (∀ v ∈ [getStr w.cfg .tunnelServer, getStr w.cfg .tunnelService, getStr w.cfg .tunnelLocal,
        (S.tunnel w.peri).lastError], ¬ Stops (v ++ ['"'])) := by
  have hlen := (statusJson_fits hb (S.tunnel w.peri)).2
  have hfront : byteLen "+TUNNEL:".toList = 8 := by decide
  have hcap : listCap = 1600 := rfl
  unfold cmdTunnel
  rw [if_neg (by simp [hf]), if_pos rfl]
  apply answers_answer
  rw [buffer_fits (by omega), List.forall_mem_cons, List.forall_mem_singleton,
    quiet_append (by decide) (by decide), and_iff_right (plainLine_tunnelEn hn).quiet,
    stops_statusJson hb hn]
  simp only [not_exists, not_and]

end Tunnel

section Hardware

theorem answers_cmdGpioW : Answers (cmdGpioW f S args w).lines True := by
  unfold cmdGpioW
  apply answers_ite (answers_fail (by decide))
  apply answers_ite (answers_fail (by decide))
  split
  · exact answers_ite (answers_after _ fun _ => answers_accept _ (by decide)) (answers_fail (by decide))
  · exact answers_fail (by decide)

theorem answers_cmdGpioR : Answers (cmdGpioR f S args w).lines True := by
  unfold cmdGpioR
  apply answers_ite (answers_fail (by decide))
  split
  · refine answers_ite (answers_after _ fun level => ?_) (answers_fail (by decide))
    cases level with
    | none => exact answers_fail (by decide)
    | some level =>
      exact answers_line (plainLine_buffer (by decide) (by decide) (by decide)
        (List.forall_mem_singleton.mpr (plain_digits _)))
  · exact answers_fail (by decide)

theorem answers_cmdAdc : Answers (cmdAdc f S args w).lines True := by
  unfold cmdAdc
  apply answers_ite (answers_fail (by decide))
  split
  · refine answers_ite (answers_after _ fun mv => ?_) (answers_fail (by decide))
    cases mv with
    | none => exact answers_fail (by decide)
    | some mv =>
      exact answers_line (plainLine_buffer (by decide) (by decide) (by decide)
        (List.forall_mem_singleton.mpr (plain_digits _)))
  · exact answers_fail (by decide)

theorem plainLine_i2cScan : PlainLine (i2cScan S) := by
  have hput : put 600 [] "+I2C:".toList = "+I2C:".toList := by decide
  unfold i2cScan
  rw [hput]
  generalize (List.range' 0x08 0x70).filter (fun addr => S.probe addr.toUInt8) = addrs
  have hfound : "+I2C:".toList <+: addrs.foldl (fun out addr =>
      (write 600 out (formatArgs [" 0x".toList] [Bond.byteHexUpper addr.toUInt8])).1)
      "+I2C:".toList :=
    prefix_foldl (fun out addr => prefix_write 600 out _) _ _
  have hplain : Plain (addrs.foldl (fun out addr =>
      (write 600 out (formatArgs [" 0x".toList] [Bond.byteHexUpper addr.toUInt8])).1)
      "+I2C:".toList) := by
    refine plain_foldl (fun out addr hout => plain_write hout ?_) (by decide) addrs
    rw [formatArgs, formatArgs, List.forall_mem_cons, List.forall_mem_singleton]
    exact ⟨by decide, (plain_byteHex _).2⟩
  dsimp only
  split_ifs
  · exact ⟨dataLine_of_front (by decide) (hfound.trans (prefix_put 600 _ _)),
      plain_put hplain (by decide)⟩
  · exact ⟨dataLine_of_front (by decide) hfound, hplain⟩

theorem answers_cmdI2cScan : Answers (cmdI2cScan f S w).lines True :=
  answers_ite (answers_fail (by decide)) (answers_line plainLine_i2cScan)

theorem plainLine_i2cRLine (bs : List UInt8) : PlainLine (i2cRLine bs) := by
  have hput : put listCap [] "+I2C_R:".toList = "+I2C_R:".toList := by decide
  unfold i2cRLine
  rw [hput]
  constructor
  · apply dataLine_of_front (c := '+') (by decide)
    apply prefix_foldl
    intro out b
    split_ifs
    · exact (prefix_put listCap out [' ']).trans (prefix_write listCap _ _)
    · exact prefix_write listCap out _
  · refine plain_foldl (fun out b hout => ?_) (by decide) _
    have hbyte : ∀ t ∈ [Bond.byteHexUpper b.1], Plain t :=
      List.forall_mem_singleton.mpr (plain_byteHex _).2
    split_ifs
    · exact plain_write (plain_put hout (by decide)) hbyte
    · exact plain_write hout hbyte

theorem answers_cmdI2cR : Answers (cmdI2cR f S args w).lines True := by
  unfold cmdI2cR
  apply answers_ite (answers_fail (by decide))
  apply answers_ite (answers_fail (by decide))
  split
  · refine answers_ite (answers_fail (by decide)) (answers_after _ fun bytes => ?_)
    cases bytes with
    | none => exact answers_fail (by decide)
    | some bytes => exact answers_line (plainLine_i2cRLine bytes)
  · exact answers_fail (by decide)

theorem answers_cmdI2cW : Answers (cmdI2cW f S args w).lines True := by
  unfold cmdI2cW
  apply answers_ite (answers_fail (by decide))
  split
  · exact answers_after _ fun _ => answers_accept _ (by decide)
  · exact answers_fail (by decide)

theorem answers_cmdLedState : Answers (cmdLedState S w).lines True := by
  refine answers_line (plainLine_buffer (by decide) (by decide) (by decide) ?_)
  simp only [List.forall_mem_cons]
  refine ⟨plain_digits _, plain_digits _, plain_digits _, ?_, fun _ hs => by cases hs⟩
  cases (S.ledCurrent w.peri).2 <;> decide

theorem answers_cmdLed : Answers (cmdLed f S args w).lines True := by
  unfold cmdLed
  apply answers_ite (answers_fail (by decide))
  split
  · exact answers_done
  · exact answers_fail (by decide)

end Hardware

section Keyboard

theorem answers_post (op : Kb.Op) : Answers (post S w op).lines True := by
  unfold post
  split
  · exact answers_done
  · exact answers_fail (by decide)

theorem answers_cmdDevState : Answers (cmdDevState f S w).lines True := by
  refine answers_ite (answers_fail (by decide)) (answers_line ?_)
  cases S.target w.peri <;> decide

theorem answers_cmdDev : Answers (cmdDev f S args w).lines True := by
  unfold cmdDev
  apply answers_ite (answers_fail (by decide))
  split
  · exact answers_ite answers_done (answers_fail (by decide))
  · exact answers_fail (by decide)

theorem answers_cmdTap : Answers (cmdTap f S args w).lines True := by
  unfold cmdTap
  apply answers_ite (answers_fail (by decide))
  split
  · exact answers_post _
  · exact answers_fail (by decide)

theorem answers_cmdKey : Answers (cmdKey f S args w).lines True := by
  unfold cmdKey
  apply answers_ite (answers_fail (by decide))
  split
  · exact answers_post _
  · exact answers_fail (by decide)

theorem answers_cmdKeyStr : Answers (cmdKeyStr f S args w).lines True := by
  unfold cmdKeyStr
  apply answers_ite (answers_fail (by decide))
  apply answers_ite (answers_fail (by decide))
  split_ifs
  · exact answers_post _
  · exact answers_fail (by decide)

theorem answers_cmdKeySeq : Answers (cmdKeySeq f S args w).lines True := by
  unfold cmdKeySeq
  apply answers_ite (answers_fail (by decide))
  apply answers_ite (answers_fail (by decide))
  split
  · exact answers_post _
  · exact answers_fail (by decide)

end Keyboard

section Bluetooth

theorem answers_cmdPair : Answers (cmdPair f S w).lines True := by
  refine answers_ite (answers_fail (by decide)) (answers_line ?_)
  exact plainLine_buffer (by decide) (by decide) (by decide)
    (List.forall_mem_singleton.mpr (plain_digits _))

theorem plainLine_bondLine {name : String} (h : PlainLine name.toList) (hne : name.toList ≠ [])
    (a : Vector UInt8 6) : PlainLine (bondLine name a) := by
  refine plainLine_buffer h.data hne ?_ ?_
  · rw [List.forall_mem_cons]
    exact ⟨h.plain, by decide⟩
  · rw [List.forall_mem_map]
    exact fun b _ => (plain_byteHex b).2

theorem answers_cmdBle : Answers (cmdBle f S flash args w).lines True := by
  unfold cmdBle
  apply answers_ite (answers_fail (by decide))
  refine answers_ite (answers_lines ?_) (answers_ite (answers_line ?_)
    (answers_ite answers_done (answers_fail (by decide))))
  · rw [List.forall_mem_cons, List.forall_mem_singleton]
    constructor
    · refine plainLine_buffer (by decide) (by decide) (by decide) ?_
      rw [List.forall_mem_cons, List.forall_mem_singleton]
      refine ⟨plain_digits _, ?_⟩
      split_ifs <;> decide
    · split
      · exact plainLine_bondLine (by decide) (by decide) _
      · decide
  · split
    · exact plainLine_bondLine (by decide) (by decide) _
    · decide

end Bluetooth

section Dispatch

variable {line : Text}

theorem strip_eq_some {front rest : Text} (h : strip front line = some rest) : line = front ++ rest := by
  unfold strip at h
  split_ifs at h with hfront
  cases h
  exact (List.prefix_iff_eq_append.mp (List.isPrefixOf_iff_prefix.mp hfront)).symm

theorem rest_word {s : String} (h : (Pattern.word s).rest line = some args) : line = s.toList := by
  dsimp only [Pattern.rest] at h
  split_ifs at h with hline
  exact hline

theorem answers_help : Answers (answer help w).lines True := by
  apply answers_lines
  rw [help, List.forall_mem_map]
  intro s hs
  simp only [List.mem_cons, List.not_mem_nil, or_false] at hs
  rcases hs with rfl | rfl | rfl | rfl | rfl | rfl | rfl | rfl | rfl | rfl | rfl | rfl | rfl | rfl |
    rfl | rfl
  all_goals exact plainLine_ofList (by decide)

theorem answers_commands (hn : Normal w.cfg) (hkeys : line ≠ "AT+KEYS".toList)
    (hstatus : line ≠ "AT+STATUS".toList) (hwifi : line ≠ "AT+WIFI=status".toList)
    (htunnel : ¬ (line = "AT+TUNNEL=status".toList ∧ f.rathole))
    (hget : strip "AT+GET=".toList line = none) :
    ∀ c ∈ commands f S flash erases, ∀ args, c.1.rest line = some args →
      Answers (c.2 args w).lines True := by
  intro c hc args hargs
  simp only [commands, List.mem_cons, List.not_mem_nil, or_false] at hc
  rcases hc with rfl | rfl | rfl | rfl | rfl | rfl | rfl | rfl | rfl | rfl | rfl | rfl | rfl | rfl |
    rfl | rfl | rfl | rfl | rfl | rfl | rfl | rfl | rfl | rfl | rfl | rfl | rfl | rfl | rfl | rfl | rfl
  · exact answers_done
  · exact answers_line (by decide)
  · exact answers_line (plainLine_buffer (by decide) (by decide) (by decide)
      (List.forall_mem_singleton.mpr (plain_abilityJson f)))
  · exact answers_help
  · exact answers_cmdSet
  · exact absurd (hget.symm.trans hargs) nofun
  · exact absurd (rest_word hargs) hkeys
  · exact answers_cmdLedState
  · exact answers_cmdLed
  · exact answers_cmdDevState
  · exact answers_cmdDev
  · exact answers_cmdPair
  · exact answers_cmdBle
  · exact answers_cmdTap
  · exact answers_cmdKeyStr
  · exact answers_cmdKeySeq
  · exact answers_cmdKey
  · refine answers_cmdTunnel hn fun h => htunnel ⟨?_, h.2⟩
    rw [strip_eq_some hargs, h.1]
    decide
  · exact answers_cmdNvs
  · exact answers_cmdGpioW
  · exact answers_cmdGpioR
  · exact answers_cmdAdc
  · exact answers_cmdI2cScan
  · exact answers_cmdI2cR
  · exact answers_cmdI2cW
  · exact absurd (rest_word hargs) hstatus
  · refine answers_cmdWifi fun h => hwifi ?_
    rw [strip_eq_some hargs, h]
    decide
  · exact answers_cmdMqtt hn
  · exact answers_cmdHttp hn
  · exact answers_cmdHttp hn
  · exact answers_done

/-- A line is answered, and the texts it shows decide whether the answer is framed for the host. -/
theorem answers_execute (hb : Bounded w.cfg) (hn : Normal w.cfg) (line : Text) :
    Answers (execute f S flash erases line w).lines (∀ t ∈ shown f S line w, ¬ Stops t) := by
  unfold shown
  split_ifs with hkeys hstatus hwifi hfits htunnel
  · subst hkeys
    refine (answers_cmdKeys hb).congr ?_
    rw [List.forall_mem_map]
    simp only [List.mem_filter, decide_eq_true_eq, and_imp]
  · subst hstatus
    refine (answers_cmdStatus hb).congr ?_
    rw [List.forall_mem_singleton]
  · subst hwifi
    have hanswers : Answers (cmdWifi flash "status".toList w).lines _ := answers_wifiStatus
    rwa [if_pos hfits] at hanswers
  · subst hwifi
    have hanswers : Answers (cmdWifi flash "status".toList w).lines _ := answers_wifiStatus
    rwa [if_neg hfits] at hanswers
  · obtain ⟨rfl, hf⟩ := htunnel
    refine (answers_tunnelStatus hb hn hf).congr ?_
    rw [List.forall_mem_map]
  · cases hget : strip "AT+GET=".toList line with
    | some key =>
      obtain rfl := strip_eq_some hget
      exact answers_cmdGet hb
    | none =>
      refine Answers.congr (p := True) ?_ (iff_of_true trivial fun _ ht => by cases ht)
      unfold execute
      cases hfind : (commands f S flash erases).findSome? fun c =>
          (c.1.rest line).map fun args => c.2 args w with
      | none => exact answers_fail (by decide)
      | some r =>
        obtain ⟨c, hc, hr⟩ := List.exists_of_findSome?_eq_some hfind
        obtain ⟨args, hargs, rfl⟩ := Option.map_eq_some_iff.mp hr
        exact answers_commands hn hkeys hstatus hwifi htunnel hget c hc args hargs

open CfgStore in
/-- In every state of a run of the registry from an empty flash, a line that is not empty gets data lines
and one last line exactly when none of the stored texts that it shows stops the response. -/
theorem handleLine_framed_iff (f : Features) (S : Services σ) (flash : Text → Bool) (erases : Bool)
    (line : Text) (mac : Mac) (es : List Event) (peri : σ) :
    let w : World σ := ⟨Run.final step (boot mac fun _ => none) es, peri⟩
    (trim line ≠ [] → Framed (received (handleLine f S flash erases line w).lines)) ↔
      ∀ t ∈ shown f S (trim line) w, ¬ Stops t := by
  intro w
  have hb : Bounded w.cfg := (bounded_run mac es).final
  have hn : Normal w.cfg := (normal_run mac es).final
  unfold handleLine
  split_ifs with hline
  · rw [hline]
    exact iff_of_true (absurd rfl) fun t ht => by cases ht
  · exact (forall_prop_of_true hline).trans (answers_execute hb hn _).framed_iff

open CfgStore in
/-- The name of the device is set to `a`, a line feed and `OK`; a host that reads it sees `OK` twice. -/
theorem stored_name_ends_response :
    let w : World Unit := ⟨Run.final step (boot (Vector.replicate 6 0) fun _ => none)
      [.set ⟨"device.name".toList, "a\nOK".toList, true⟩], ()⟩
    let r := handleLine MqttWhole.everything Narrowing.idle (fun _ => true) true
      "AT+GET=device.name".toList w
    received r.lines = ["+GET:device.name=a".toList, okLine, okLine] ∧
      ¬ (trim "AT+GET=device.name".toList ≠ [] → Framed (received r.lines)) := by
  intro w r
  have hlines : received r.lines = ["+GET:device.name=a".toList, okLine, okLine] := by decide +kernel
  refine ⟨hlines, fun h => ?_⟩
  obtain ⟨data, last, heq, -, hnone⟩ := h (by decide)
  have hsplit : ["+GET:device.name=a".toList, okLine] ++ [okLine] = data ++ [last] := hlines.symm.trans heq
  have hmem : okLine ∈ data := by
    rw [← (List.append_inj' hsplit rfl).1]
    exact List.mem_cons_of_mem _ List.mem_cons_self
  exact hnone okLine hmem (Or.inl rfl)

end Dispatch

end AtNode.At
