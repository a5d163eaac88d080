import AtNode.Lib.Chunks
import AtNode.Esp32.CfgStore
import AtNode.Esp32.Rathole

/-!
# The control handshake of the rathole client

The client says hello with the digest of its service name, reads the server's hello, answers with
the digest of its token and the server's nonce, and reads an acknowledgement. The digest function is
a parameter.

The input of `authInput` is a buffer of 96 bytes, of which the nonce takes 32. The registry accepts
tokens of up to 95 bytes.
-/

namespace AtNode.Rathole

open Config Memory

abbrev helloLen : ℕ := 37

def protoVersion : UInt8 := 1

abbrev authCap : ℕ := 96

abbrev Digest := Vector UInt8 32

structure HandshakeCfg extends TunCfg where
  service : Text

def loadCfg (cfg : Cfg) : HandshakeCfg where
  server := getStr cfg .tunnelServer
  token := getStr cfg .tunnelToken
  localAddr := getStr cfg .tunnelLocal
  service := getStr cfg .tunnelService

/-- What the network does with one connection attempt. -/
structure Net where
  answer : Answer
  connects : Bool
  /-- The bytes it takes before a write fails. -/
  limit : ℕ
  /-- What arrives in time. -/
  incoming : List Bytes

structure Attempt (α : Type) where
  sent : Bytes
  result : Except String α

section Operations

def buildHello (variant : ℕ) (digest : Digest) : Bytes :=
  (List.range 4).map (leByte variant) ++ [protoVersion] ++ digest.toList

/-- The loop of `read_exact`; `got` is the filled part of the buffer. -/
def readLoop (n : ℕ) (got : Bytes) (cs : List Bytes) : Option (Bytes × List Bytes) :=
  if got.length < n then
    match Chunks.read (n - got.length) cs with
    | ([], _) => none
    | (b :: bs, cs) => readLoop n (got ++ b :: bs) cs
  else some (got, cs)
termination_by n - got.length
decreasing_by
  rw [List.length_append, List.length_cons]
  omega

def readExact (n : ℕ) (cs : List Bytes) : Option (Bytes × List Bytes) := readLoop n [] cs

def authInput (token nonce : Bytes) : Option Bytes :=
  if authCap < token.length then none
  else if authCap < token.length + nonce.length then none
  else some (token ++ nonce)

/-- `control_handshake` from the session key on. -/
def authenticate (limit : ℕ) (hello : Bytes) (sessionKey : Digest) (rest : List Bytes) :
    Attempt (Digest × List Bytes) :=
  let sent := hello ++ sessionKey.toList
  if limit < sent.length then ⟨sent.take limit, .error "write auth failed"⟩
  else
    match readExact 4 rest with
    | none => ⟨sent, .error "read ack failed"⟩
    | some (ack, rest) =>
      if leU32 ack = 0 then ⟨sent, .ok (sessionKey, rest)⟩
      else if leU32 ack = 1 then ⟨sent, .error "service not exist"⟩
      else ⟨sent, .error "auth failed"⟩

/-- `control_handshake` from the first write on. -/
def exchange (sha256 : Bytes → Digest) (tcfg : HandshakeCfg) (net : Net) :
    Attempt (Digest × List Bytes) :=
  let hello := buildHello 0 (sha256 (Utf8.encode tcfg.service))
  if net.limit < hello.length then ⟨hello.take net.limit, .error "write hello failed"⟩
  else
    match readExact helloLen net.incoming with
    | none => ⟨hello, .error "read hello failed"⟩
    | some (sh, rest) =>
      if leU32 sh ≠ 0 ∨ sh.getD 4 0 ≠ protoVersion then ⟨hello, .error "bad server hello"⟩
      else
        match authInput (Utf8.encode tcfg.token) (sh.drop 5) with
        | none => ⟨hello, .error "token too long"⟩
        | some input => authenticate net.limit hello (sha256 input) rest

/-- `control_handshake`, with the bytes; a success leaves what the socket has still to deliver. -/
def handshake (sha256 : Bytes → Digest) (tcfg : HandshakeCfg) (net : Net) :
    Attempt (Digest × List Bytes) :=
  match splitHostPort tcfg.server with
  | none => ⟨[], .error "bad server addr"⟩
  | some (host, _) =>
    match resolve host net.answer with
    | none => ⟨[], .error "dns resolve failed"⟩
    | some _ =>
      if net.connects then exchange sha256 tcfg net else ⟨[], .error "tcp connect failed"⟩

/-- What `pool_fill_one` writes to a data channel. -/
def dataChannelHello (sessionKey : Digest) : Bytes := buildHello 1 sessionKey

end Operations

section Protocol

variable (sha256 : Bytes → Digest) (tcfg : HandshakeCfg) (net : Net)

/-- Variant zero, version one and a nonce. -/
def ValidHello (stream : Bytes) : Prop :=
  helloLen ≤ stream.length ∧ stream.take 5 = [0, 0, 0, 0, 1]

instance (stream : Bytes) : Decidable (ValidHello stream) :=
  inferInstanceAs (Decidable (helloLen ≤ stream.length ∧ stream.take 5 = [0, 0, 0, 0, 1]))

def nonce (stream : Bytes) : Bytes := (stream.drop 5).take 32

/-- The four bytes behind the hello are there and zero. -/
def Acknowledged (stream : Bytes) : Prop := (stream.drop helloLen).take 4 = [0, 0, 0, 0]

/-- The digest both sides derive from the token and the nonce. -/
def sharedKey (stream : Bytes) : Digest := sha256 (Utf8.encode tcfg.token ++ nonce stream)

/-- What the protocol has the client send to a server that sends `stream`. -/
def due (stream : Bytes) : Bytes :=
  [0, 0, 0, 0, 1] ++ (sha256 (Utf8.encode tcfg.service)).toList ++
    if ValidHello stream then (sharedKey sha256 tcfg stream).toList else []

/-- The address is one and there is a connection. -/
def Reached : Prop :=
  ∃ host port ip, splitHostPort tcfg.server = some (host, port) ∧
    resolve host net.answer = some ip ∧ net.connects = true

/-- The client keeps to the protocol on one attempt. -/
structure Conforms : Prop where
  unreached : ¬ Reached tcfg net →
    (handshake sha256 tcfg net).sent = [] ∧ ¬ ∃ r, (handshake sha256 tcfg net).result = .ok r
  sent : Reached tcfg net →
    (handshake sha256 tcfg net).sent = (due sha256 tcfg net.incoming.flatten).take net.limit
  succeeds : Reached tcfg net →
    ((∃ r, (handshake sha256 tcfg net).result = .ok r) ↔
      ValidHello net.incoming.flatten ∧ Acknowledged net.incoming.flatten ∧
        (due sha256 tcfg net.incoming.flatten).length ≤ net.limit)
  session : ∀ key rest, (handshake sha256 tcfg net).result = .ok (key, rest) →
    key = sharedKey sha256 tcfg net.incoming.flatten ∧
      net.incoming.flatten.length = 41 + rest.flatten.length ∧
      rest.flatten = net.incoming.flatten.drop 41 ∧
      dataChannelHello key = [1, 0, 0, 0, 1] ++ key.toList

end Protocol

section Reading

variable {n : ℕ} {got b : Bytes} {cs : List Bytes}

/-- A reader that gets enough takes just that, whatever the chunks are. -/
theorem readLoop_enough (got : Bytes) (hgot : got.length ≤ n) (h : n ≤ got.length + cs.flatten.length) :
    ∃ rest, readLoop n got cs = some (got ++ cs.flatten.take (n - got.length), rest) ∧
      rest.flatten = cs.flatten.drop (n - got.length) := by
  fun_induction readLoop n got cs with
  | case1 got cs hlt cs' hr =>
    have hnil := (Chunks.read_eq_nil_iff (Nat.sub_pos_of_lt hlt) cs).mp (by rw [hr])
    rw [hnil, List.length_nil] at h
    omega
  | case2 got cs hlt b bs cs' hr ih =>
    have happ := Chunks.read_append (n - got.length) cs
    have hle := Chunks.length_read_le (n - got.length) cs
    rw [hr] at happ hle
    dsimp only at happ hle
    have hlen := congrArg List.length happ
    rw [List.length_append] at hlen
    obtain ⟨rest, hrest, hflat⟩ := ih
      (by rw [List.length_append]; omega) (by rw [List.length_append]; omega)
    have hsub : n - (got ++ b :: bs).length = n - got.length - (b :: bs).length := by
      rw [List.length_append]
      omega
    refine ⟨rest, ?_, ?_⟩
    · rw [hrest, hsub, ← happ, List.take_append, List.take_of_length_le hle, List.append_assoc]
    · rw [hflat, hsub, ← happ, List.drop_append, List.drop_of_length_le hle, List.nil_append]
  | case3 got cs hge =>
    have hzero : n - got.length = 0 := by omega
    exact ⟨cs, by rw [hzero, List.take_zero, List.append_nil], by rw [hzero, List.drop_zero]⟩

theorem readLoop_short (h : got.length + cs.flatten.length < n) : readLoop n got cs = none := by
  fun_induction readLoop n got cs with
  | case1 => rfl
  | case2 got cs hlt b bs cs' hr ih =>
    have hlen := congrArg List.length (Chunks.read_append (n - got.length) cs)
    rw [hr, List.length_append] at hlen
    dsimp only at hlen
    apply ih
    rw [List.length_append]
    omega
  | case3 got cs hge => omega

theorem readExact_enough (h : n ≤ cs.flatten.length) :
    ∃ rest, readExact n cs = some (cs.flatten.take n, rest) ∧
      rest.flatten = cs.flatten.drop n := by
  have hloop := readLoop_enough [] (Nat.zero_le n) (by rwa [List.length_nil, Nat.zero_add])
  rwa [List.length_nil, Nat.sub_zero] at hloop

theorem readExact_short (h : cs.flatten.length < n) : readExact n cs = none :=
  readLoop_short (by rwa [List.length_nil, Nat.zero_add])

theorem leU32_eq_zero_iff {b0 b1 b2 b3 : UInt8} {t : Bytes} :
    leU32 (b0 :: b1 :: b2 :: b3 :: t) = 0 ↔ b0 = 0 ∧ b1 = 0 ∧ b2 = 0 ∧ b3 = 0 := by
  have hval : leU32 (b0 :: b1 :: b2 :: b3 :: t) =
      b0.toNat + 256 * (b1.toNat + 256 * (b2.toNat + 256 * (b3.toNat + 256 * 0))) := rfl
  rw [hval]
  simp only [← UInt8.toNat_inj, UInt8.toNat_zero]
  omega

end Reading

section Framing

variable {stream : Bytes}

@[simp] theorem length_buildHello (variant : ℕ) (digest : Digest) :
    (buildHello variant digest).length = helloLen := by
  simp [buildHello]

theorem buildHello_zero (digest : Digest) :
    buildHello 0 digest = [0, 0, 0, 0, 1] ++ digest.toList := by
  have hvariant : (List.range 4).map (leByte 0) = [0, 0, 0, 0] := by decide
  rw [buildHello, hvariant]
  rfl

theorem dataChannelHello_eq (key : Digest) :
    dataChannelHello key = [1, 0, 0, 0, 1] ++ key.toList := by
  have hvariant : (List.range 4).map (leByte 1) = [1, 0, 0, 0] := by decide
  rw [dataChannelHello, buildHello, hvariant]
  rfl

/-- The two comparisons on a hello read in full. -/
theorem badHello_iff (h : helloLen ≤ stream.length) :
    (leU32 (stream.take helloLen) ≠ 0 ∨ (stream.take helloLen).getD 4 0 ≠ protoVersion) ↔
      ¬ ValidHello stream := by
  obtain ⟨b0, b1, b2, b3, b4, t, rfl⟩ : ∃ b0 b1 b2 b3 b4 t,
      stream = b0 :: b1 :: b2 :: b3 :: b4 :: t := by
    match stream, h with
    | b0 :: b1 :: b2 :: b3 :: b4 :: t, _ => exact ⟨b0, b1, b2, b3, b4, t, rfl⟩
  have htake : (b0 :: b1 :: b2 :: b3 :: b4 :: t).take helloLen =
      b0 :: b1 :: b2 :: b3 :: b4 :: t.take 32 := rfl
  have hget : (b0 :: b1 :: b2 :: b3 :: b4 :: t.take 32).getD 4 0 = b4 := rfl
  have hfive : (b0 :: b1 :: b2 :: b3 :: b4 :: t).take 5 = [b0, b1, b2, b3, b4] := rfl
  rw [htake, hget, ne_eq, leU32_eq_zero_iff, ValidHello, hfive]
  simp only [h, true_and, List.cons.injEq, and_true, protoVersion]
  tauto

theorem ack_iff (h : 4 ≤ stream.length) :
    leU32 (stream.take 4) = 0 ↔ stream.take 4 = [0, 0, 0, 0] := by
  obtain ⟨b0, b1, b2, b3, t, rfl⟩ : ∃ b0 b1 b2 b3 t, stream = b0 :: b1 :: b2 :: b3 :: t := by
    match stream, h with
    | b0 :: b1 :: b2 :: b3 :: t, _ => exact ⟨b0, b1, b2, b3, t, rfl⟩
  have htake : (b0 :: b1 :: b2 :: b3 :: t).take 4 = [b0, b1, b2, b3] := rfl
  rw [htake, leU32_eq_zero_iff]
  simp only [List.cons.injEq, and_true]

theorem ack_ne (h : stream.length < 4) : stream.take 4 ≠ [0, 0, 0, 0] := by
  intro heq
  have hlen := congrArg List.length heq
  rw [List.length_take, List.length_cons, List.length_cons, List.length_cons, List.length_cons,
    List.length_nil] at hlen
  omega

theorem length_nonce (h : helloLen ≤ stream.length) : (nonce stream).length = 32 := by
  have hlen : helloLen = 37 := rfl
  rw [nonce, List.length_take, List.length_drop]
  omega

theorem authInput_eq (token : Bytes) (h : helloLen ≤ stream.length) :
    authInput token (nonce stream) =
      if token.length ≤ 64 then some (token ++ nonce stream) else none := by
  have hcap : authCap = 96 := rfl
  rw [authInput, length_nonce h, hcap]
  by_cases htoken : token.length ≤ 64
  · rw [if_neg (by omega), if_neg (by omega), if_pos htoken]
  · rw [if_neg htoken]
    split_ifs with _ hroom
    · rfl
    · rfl
    · omega

end Framing

section Exchange

variable {sha256 : Bytes → Digest} {tcfg : HandshakeCfg} {net : Net}

theorem authenticate_ok {limit : ℕ} {hello : Bytes} {key : Digest} {rest : List Bytes}
    (hlimit : (hello ++ key.toList).length ≤ limit) (hack : rest.flatten.take 4 = [0, 0, 0, 0]) :
    ∃ rest', authenticate limit hello key rest = ⟨hello ++ key.toList, .ok (key, rest')⟩ ∧
      rest'.flatten = rest.flatten.drop 4 := by
  have hlen : 4 ≤ rest.flatten.length := by
    by_contra hshort
    exact ack_ne (Nat.lt_of_not_le hshort) hack
  obtain ⟨rest', hread, hflat⟩ := readExact_enough hlen
  refine ⟨rest', ?_, hflat⟩
  unfold authenticate
  dsimp only
  rw [if_neg (Nat.not_lt_of_le hlimit), hread]
  dsimp only
  rw [if_pos ((ack_iff hlen).mpr hack)]

theorem authenticate_error {limit : ℕ} {hello : Bytes} {key : Digest} {rest : List Bytes}
    (h : ¬ ((hello ++ key.toList).length ≤ limit ∧ rest.flatten.take 4 = [0, 0, 0, 0])) :
    ∃ e, authenticate limit hello key rest = ⟨(hello ++ key.toList).take limit, .error e⟩ := by
  unfold authenticate
  dsimp only
  by_cases hlimit : limit < (hello ++ key.toList).length
  · rw [if_pos hlimit]
    exact ⟨_, rfl⟩
  · have hle := Nat.le_of_not_lt hlimit
    rw [if_neg hlimit, List.take_of_length_le hle]
    by_cases hshort : rest.flatten.length < 4
    · rw [readExact_short hshort]
      exact ⟨_, rfl⟩
    · obtain ⟨rest', hread, -⟩ := readExact_enough (Nat.le_of_not_lt hshort)
      have hack : leU32 (rest.flatten.take 4) ≠ 0 := fun hzero =>
        h ⟨hle, (ack_iff (Nat.le_of_not_lt hshort)).mp hzero⟩
      rw [hread]
      dsimp only
      rw [if_neg hack]
      split
      · exact ⟨_, rfl⟩
      · exact ⟨_, rfl⟩

theorem exchange_cut (sha256 : Bytes → Digest) (tcfg : HandshakeCfg) (h : net.limit < helloLen) :
    ∃ e, exchange sha256 tcfg net =
      ⟨(buildHello 0 (sha256 (Utf8.encode tcfg.service))).take net.limit, .error e⟩ := by
  unfold exchange
  dsimp only
  rw [length_buildHello, if_pos h]
  exact ⟨_, rfl⟩

theorem exchange_refused (sha256 : Bytes → Digest) (tcfg : HandshakeCfg) (h : helloLen ≤ net.limit)
    (hv : ¬ ValidHello net.incoming.flatten) :
    ∃ e, exchange sha256 tcfg net =
      ⟨buildHello 0 (sha256 (Utf8.encode tcfg.service)), .error e⟩ := by
  unfold exchange
  dsimp only
  rw [length_buildHello, if_neg (Nat.not_lt_of_le h)]
  by_cases hshort : net.incoming.flatten.length < helloLen
  · rw [readExact_short hshort]
    exact ⟨_, rfl⟩
  · obtain ⟨rest, hread, -⟩ := readExact_enough (Nat.le_of_not_lt hshort)
    rw [hread]
    dsimp only
    rw [if_pos ((badHello_iff (Nat.le_of_not_lt hshort)).mpr hv)]
    exact ⟨_, rfl⟩

/-- After a good hello everything depends on the room for the token. -/
theorem exchange_answered (sha256 : Bytes → Digest) (tcfg : HandshakeCfg) (h : helloLen ≤ net.limit)
    (hv : ValidHello net.incoming.flatten) :
    ∃ rest : List Bytes, rest.flatten = net.incoming.flatten.drop helloLen ∧
      exchange sha256 tcfg net =
        let hello := buildHello 0 (sha256 (Utf8.encode tcfg.service))
        if byteLen tcfg.token ≤ 64 then
          authenticate net.limit hello (sharedKey sha256 tcfg net.incoming.flatten) rest
        else ⟨hello, .error "token too long"⟩ := by
  obtain ⟨rest, hread, hflat⟩ := readExact_enough hv.1
  refine ⟨rest, hflat, ?_⟩
  have hnonce : (net.incoming.flatten.take helloLen).drop 5 = nonce net.incoming.flatten := by
    rw [List.drop_take]
    rfl
  unfold exchange
  dsimp only
  rw [length_buildHello, if_neg (Nat.not_lt_of_le h), hread]
  dsimp only
  rw [if_neg fun hbad => (badHello_iff hv.1).mp hbad hv, hnonce, authInput_eq _ hv.1, length_encode]
  by_cases htoken : byteLen tcfg.token ≤ 64
  · rw [if_pos htoken, if_pos htoken]
    rfl
  · rw [if_neg htoken, if_neg htoken]

theorem handshake_unreached (sha256 : Bytes → Digest) (h : ¬ Reached tcfg net) :
    ∃ e, handshake sha256 tcfg net = ⟨[], .error e⟩ := by
  unfold handshake
  split
  · exact ⟨_, rfl⟩
  · rename_i host port hsplit
    split
    · exact ⟨_, rfl⟩
    · rename_i ip hip
      have hconnects : ¬ net.connects = true := fun hc => h ⟨host, port, ip, hsplit, hip, hc⟩
      rw [if_neg hconnects]
      exact ⟨_, rfl⟩

theorem handshake_reached (h : Reached tcfg net) :
    handshake sha256 tcfg net = exchange sha256 tcfg net := by
  obtain ⟨host, port, ip, hsplit, hip, hconnects⟩ := h
  unfold handshake
  rw [hsplit]
  dsimp only
  rw [hip]
  dsimp only
  rw [if_pos hconnects]

end Exchange

section Conformance

variable {sha256 : Bytes → Digest} {tcfg : HandshakeCfg} {net : Net}

theorem due_eq (sha256 : Bytes → Digest) (tcfg : HandshakeCfg) (stream : Bytes) :
    due sha256 tcfg stream = buildHello 0 (sha256 (Utf8.encode tcfg.service)) ++
      if ValidHello stream then (sharedKey sha256 tcfg stream).toList else [] := by
  rw [due, buildHello_zero]

theorem conforms_error {e : String} (h : Reached tcfg net)
    (heq : exchange sha256 tcfg net =
      ⟨(due sha256 tcfg net.incoming.flatten).take net.limit, .error e⟩)
    (hno : ¬ (ValidHello net.incoming.flatten ∧ Acknowledged net.incoming.flatten ∧
      (due sha256 tcfg net.incoming.flatten).length ≤ net.limit)) :
    Conforms sha256 tcfg net := by
  rw [← handshake_reached h] at heq
  refine ⟨fun hun => absurd h hun, fun _ => by rw [heq], fun _ => ?_, ?_⟩
  · rw [heq]
    refine ⟨?_, fun hyes => absurd hyes hno⟩
    rintro ⟨r, hr⟩
    cases hr
  · intro key rest hr
    rw [heq] at hr
    cases hr

theorem conforms_unreached (h : ¬ Reached tcfg net) : Conforms sha256 tcfg net := by
  obtain ⟨e, heq⟩ := handshake_unreached sha256 h
  refine ⟨fun _ => ?_, fun hr => absurd hr h, fun hr => absurd hr h, ?_⟩
  · rw [heq]
    refine ⟨rfl, ?_⟩
    rintro ⟨r, hr⟩
    cases hr
  · intro key rest hr
    rw [heq] at hr
    cases hr

theorem conforms_short (h : Reached tcfg net) (hlimit : helloLen ≤ net.limit)
    (hv : ValidHello net.incoming.flatten) (htoken : byteLen tcfg.token ≤ 64) :
    Conforms sha256 tcfg net := by
  obtain ⟨rest, hflat, heq⟩ := exchange_answered sha256 tcfg hlimit hv
  dsimp only at heq
  rw [if_pos htoken] at heq
  have hdue := due_eq sha256 tcfg net.incoming.flatten
  rw [if_pos hv] at hdue
  by_cases hok : (due sha256 tcfg net.incoming.flatten).length ≤ net.limit ∧
      rest.flatten.take 4 = [0, 0, 0, 0]
  · have hfits := hok.1
    rw [hdue] at hfits
    obtain ⟨rest', hauth, hrest⟩ := authenticate_ok hfits hok.2
    rw [hauth, ← hdue] at heq
    rw [← handshake_reached h] at heq
    refine ⟨fun hun => absurd h hun, fun _ => ?_, fun _ => ?_, ?_⟩
    · rw [heq, List.take_of_length_le hok.1]
    · rw [heq]
      exact ⟨fun _ => ⟨hv, by rw [Acknowledged, ← hflat]; exact hok.2, hok.1⟩, fun _ => ⟨_, rfl⟩⟩
    · intro key rest'' hr
      rw [heq] at hr
      cases hr
      have hdrop : rest'.flatten = net.incoming.flatten.drop 41 := by
        rw [hrest, hflat, List.drop_drop]
      have hack := congrArg List.length hok.2
      rw [List.length_take, hflat, List.length_drop] at hack
      have hfour : [0, 0, 0, (0 : UInt8)].length = 4 := rfl
      have hlen : helloLen = 37 := rfl
      refine ⟨rfl, ?_, hdrop, dataChannelHello_eq _⟩
      rw [hdrop, List.length_drop]
      omega
  · rw [hdue] at hok
    obtain ⟨e, hauth⟩ := authenticate_error hok
    rw [hauth, ← hdue] at heq
    rw [← hdue] at hok
    apply conforms_error h heq
    rintro ⟨-, hack, hlen⟩
    rw [Acknowledged, ← hflat] at hack
    exact hok ⟨hlen, hack⟩

theorem conforms_stopped (h : Reached tcfg net)
    (hstop : net.limit ≤ helloLen ∨ ¬ ValidHello net.incoming.flatten) :
    Conforms sha256 tcfg net := by
  have hdue := due_eq sha256 tcfg net.incoming.flatten
  by_cases hcut : net.limit < helloLen
  · obtain ⟨e, heq⟩ := exchange_cut sha256 tcfg hcut
    apply conforms_error h
    · rw [heq, hdue, List.take_append_of_le_length (by rw [length_buildHello]; omega)]
    · rintro ⟨-, -, hlen⟩
      rw [hdue, List.length_append, length_buildHello] at hlen
      omega
  · have hlimit := Nat.le_of_not_lt hcut
    by_cases hv : ValidHello net.incoming.flatten
    · have hexact : net.limit = helloLen := by
        rcases hstop with hle | hno
        · omega
        · exact absurd hv hno
      by_cases htoken : byteLen tcfg.token ≤ 64
      · exact conforms_short h hlimit hv htoken
      · obtain ⟨rest, -, heq⟩ := exchange_answered sha256 tcfg hlimit hv
        dsimp only at heq
        rw [if_neg htoken] at heq
        apply conforms_error h
        · rw [heq, hdue, hexact, List.take_append_of_le_length (by rw [length_buildHello]),
            List.take_of_length_le (by rw [length_buildHello])]
        · rintro ⟨-, -, hlen⟩
          rw [hdue, if_pos hv, List.length_append, length_buildHello, Vector.length_toList] at hlen
          omega
    · obtain ⟨e, heq⟩ := exchange_refused sha256 tcfg hlimit hv
      apply conforms_error h
      · rw [heq, hdue, if_neg hv, List.append_nil,
          List.take_of_length_le (by rw [length_buildHello]; exact hlimit)]
      · exact fun hyes => hv hyes.1

/-- A longer token stops the client where its digest is due, and no server can help it. -/
theorem long_token_stops (h : Reached tcfg net) (hlimit : helloLen ≤ net.limit)
    (hv : ValidHello net.incoming.flatten) (htoken : 64 < byteLen tcfg.token) :
    handshake sha256 tcfg net =
      ⟨buildHello 0 (sha256 (Utf8.encode tcfg.service)), .error "token too long"⟩ := by
  obtain ⟨rest, -, heq⟩ := exchange_answered sha256 tcfg hlimit hv
  dsimp only at heq
  rw [handshake_reached h, heq, if_neg (Nat.not_le_of_lt htoken)]

theorem not_conforms_long (h : Reached tcfg net) (hlimit : helloLen < net.limit)
    (hv : ValidHello net.incoming.flatten) (htoken : 64 < byteLen tcfg.token) :
    ¬ Conforms sha256 tcfg net := by
  intro hc
  have hsent := hc.sent h
  rw [long_token_stops h (Nat.le_of_lt hlimit) hv htoken, due_eq, if_pos hv] at hsent
  have hlen := congrArg List.length hsent
  rw [List.length_take, List.length_append, length_buildHello, Vector.length_toList] at hlen
  omega

/-- With the token and the nonce in one buffer, the client keeps to the protocol exactly when the
buffer takes both, or the attempt does not get so far. -/
theorem handshake_conforms_iff (sha256 : Bytes → Digest) (cfg : Cfg) (net : Net) :
    Conforms sha256 (loadCfg cfg) net ↔
      byteLen (getStr cfg .tunnelToken) ≤ 64 ∨ ¬ Reached (loadCfg cfg) net ∨
        net.limit ≤ helloLen ∨ ¬ ValidHello net.incoming.flatten := by
  constructor
  · intro hc
    by_contra hno
    obtain ⟨htoken, hno⟩ := not_or.mp hno
    obtain ⟨hreached, hno⟩ := not_or.mp hno
    obtain ⟨hlimit, hvalid⟩ := not_or.mp hno
    exact not_conforms_long (not_not.mp hreached) (Nat.lt_of_not_le hlimit) (not_not.mp hvalid)
      (Nat.lt_of_not_le htoken) hc
  · intro h
    by_cases hr : Reached (loadCfg cfg) net
    · by_cases hstop : net.limit ≤ helloLen ∨ ¬ ValidHello net.incoming.flatten
      · exact conforms_stopped hr hstop
      · obtain ⟨hlimit, hvalid⟩ := not_or.mp hstop
        rcases h with htoken | hun | hle | hno
        · exact conforms_short hr (by omega) (not_not.mp hvalid) htoken
        · exact absurd hr hun
        · exact absurd hle hlimit
        · exact absurd hno hvalid
    · exact conforms_unreached hr

def blank : CfgStore.Device := CfgStore.boot (Vector.replicate 6 0) fun _ => none

/-- A tunnel with a token of 65 bytes, as it is set up over the serial port. -/
def longTokenCalls : List TunnelSwitch.Call :=
  [⟨"tunnel.1.server".toList, ['h', ':', '7'], true⟩,
    ⟨"tunnel.1.token".toList, List.replicate 65 'a', true⟩,
    ⟨"tunnel.1.service".toList, ['s'], true⟩]

def longToken : CfgStore.Device :=
  Run.final CfgStore.step blank (longTokenCalls.map CfgStore.Event.set)

/-- A server that does its part. -/
def goodServer : Net where
  answer := some [(10, 0, 0, 1)]
  connects := true
  limit := 69
  incoming := [[0, 0, 0, 0, 1] ++ List.replicate 32 7 ++ [0, 0, 0, 0]]

theorem long_token_refused :
    (∀ c ∈ longTokenCalls, (CfgStore.accepted c).isSome) ∧
      ∀ sha256, ¬ Conforms sha256 (loadCfg longToken.cfg) goodServer := by
  have htoken : getStr longToken.cfg .tunnelToken = List.replicate 65 'a' := by decide +kernel
  have hlen : byteLen (List.replicate 65 'a') = 65 := by decide +kernel
  have hreached : Reached (loadCfg longToken.cfg) goodServer := by
    refine ⟨['h'], 7, (10, 0, 0, 1), ?_, ?_, rfl⟩
    · decide +kernel
    · decide +kernel
  refine ⟨by decide +kernel, fun sha256 => ?_⟩
  apply not_conforms_long hreached
  · decide
  · decide
  · have hcfg : byteLen (loadCfg longToken.cfg).token = 65 := by
      rw [← hlen, ← htoken]
      rfl
    rw [hcfg]
    decide

end Conformance

end AtNode.Rathole
