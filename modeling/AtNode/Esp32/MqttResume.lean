import AtNode.Esp32.MqttFraming

/-!
# A receive that is resumed

A `recv` that ends does not depend on the bytes behind those it read, so a call that waits for more
bytes is resumed as the same call on all the bytes it has seen. On a part of a packet it waits.
-/

namespace AtNode.Mqtt

def Client.feed (c : Client) (more : List Bytes) : Client := { c with t := c.t ++ more }

theorem Client.pending_feed (c : Client) (more : List Bytes) :
    (c.feed more).pending = c.pending ++ more.flatten := List.flatten_append

variable {α β : Type}

/-- A result that does not come from the end of the bytes is the same with more bytes behind. -/
def Settles (feed : α → α) (r r' : Except Fault α) : Prop :=
  r = .error .io ∨ r' = r.map feed

theorem settles_bind {feed : α → α} {feed' : β → β} {r r' : Except Fault α}
    {f f' : α → Except Fault β} (h : Settles feed r r')
    (hf : ∀ a, r = .ok a → Settles feed' (f a) (f' (feed a))) :
    Settles feed' (r >>= f) (r' >>= f') := by
  rcases h with rfl | rfl
  · exact Or.inl rfl
  · cases r with
    | error e => exact Or.inr rfl
    | ok a => exact hf a rfl

variable {c : Client} {more : List Bytes} {got n : ℕ}

theorem readLoop_cons {b : UInt8} {bs : Bytes} {t : List Bytes} (hgot : got < n) (hn : n ≤ rxSize)
    (hr : Chunks.read (n - got) c.t = (b :: bs, t)) (hle : got + (b :: bs).length ≤ rxSize) :
    readLoop c got n =
      readLoop { c with t := t, rx := c.rx.write got (b :: bs) hle }
        (got + (b :: bs).length) n := by
  rw [readLoop, dif_pos hgot, dif_pos hn]
  split
  · rename_i hr'
    cases hr.symm.trans hr'
  · rename_i hr'
    cases hr.symm.trans hr'
    rfl

theorem readLoop_settles (c : Client) (more : List Bytes) (got n : ℕ) :
    Settles (Client.feed · more) (readLoop c got n) (readLoop (c.feed more) got n) := by
  fun_induction readLoop c got n with
  | case1 => exact Or.inl rfl
  | case2 c got hgot hn b bs t hr hle ih =>
    have hr' : Chunks.read (n - got) (c.feed more).t = (b :: bs, t ++ more) :=
      Chunks.read_append_right hr more
    rw [readLoop_cons hgot hn hr' (by omega)]
    exact ih
  | case3 c got hgot hn =>
    exact Or.inr (readLoop_outOfRange hgot (Nat.lt_of_not_le hn))
  | case4 c got hgot =>
    refine Or.inr ?_
    rw [readLoop, dif_neg hgot]
    rfl

theorem drain_pos (hn : 0 < n) :
    drain c n = readLoop c 0 (min n rxSize) >>= fun c' => drain c' (n - min n rxSize) := by
  rw [drain, if_pos hn]
  cases readLoop c 0 (min n rxSize) with
  | error e => rfl
  | ok c' => rfl

theorem drain_settles (c : Client) (more : List Bytes) (n : ℕ) :
    Settles (Client.feed · more) (drain c n) (drain (c.feed more) n) := by
  induction n using Nat.strongRecOn generalizing c with
  | ind n ih =>
    by_cases hn : 0 < n
    · rw [drain_pos hn, drain_pos hn]
      refine settles_bind (readLoop_settles c more 0 _) fun c' _ => ?_
      exact ih _ (by simp only [rxSize]; omega) c'
    · refine Or.inr ?_
      rw [drain, if_neg hn, drain, if_neg hn]
      rfl

theorem remLoop_more {b : UInt8} (hb : b &&& 0x80 ≠ 0) (rem shift : ℕ) :
    remLoop c b rem shift = readInto c 1 >>= fun c' =>
      remLoop c' (c'.rx.at 0)
        ((rem + ((c'.rx.at 0) &&& 0x7F).toNat <<< (shift % 32) % 2 ^ 32) % 2 ^ 32) (shift + 7) := by
  rw [remLoop, if_pos hb]
  split
  · rename_i e he
    rw [he]
    rfl
  · rename_i c' hc'
    dsimp only
    rw [hc']
    rfl

theorem remLoop_settles (c : Client) (more : List Bytes) (b : UInt8) (rem shift : ℕ) :
    Settles (Prod.map id (Client.feed · more)) (remLoop c b rem shift)
      (remLoop (c.feed more) b rem shift) := by
  induction hk : c.pending.length using Nat.strongRecOn generalizing c b rem shift with
  | ind k ih =>
    by_cases hb : b &&& 0x80 ≠ 0
    · rw [remLoop_more hb, remLoop_more hb]
      refine settles_bind (readLoop_settles c more 0 1) fun c' hc' => ?_
      have hlen := readLoop_length hc'
      exact ih c'.pending.length (by omega) c' _ _ _ rfl
    · refine Or.inr ?_
      rw [remLoop, if_neg hb, remLoop, if_neg hb]
      rfl

theorem drained_settles (c : Client) (more : List Bytes) (n : ℕ) :
    Settles (Prod.map id (Client.feed · more))
      (do let c ← drain c n; return (Event.pingresp, c))
      (do let c ← drain (c.feed more) n; return (Event.pingresp, c)) :=
  settles_bind (drain_settles c more n) fun _ _ => Or.inr rfl

theorem recvPublish_settles (c : Client) (more : List Bytes) (rem : ℕ) :
    Settles (Prod.map id (Client.feed · more)) (recvPublish c rem)
      (recvPublish (c.feed more) rem) := by
  refine settles_bind (readLoop_settles c more 0 2) fun d _ => ?_
  dsimp only [Client.feed]
  split
  · exact drained_settles d more rem
  · exact settles_bind (readLoop_settles d more 0 _) fun _ _ => Or.inr rfl

theorem recvBody_settles (c : Client) (more : List Bytes) (packetType : UInt8) (rem : ℕ) :
    Settles (Prod.map id (Client.feed · more)) (recvBody packetType rem c)
      (recvBody packetType rem (c.feed more)) := by
  unfold recvBody
  split
  · exact recvPublish_settles c more rem
  · split
    · exact drained_settles c more rem
    · split
      · exact Or.inr rfl
      · split
        · exact Or.inr rfl
        · exact drained_settles c more rem

/-- More bytes behind do not change what `recv` does with those it has. -/
theorem recv_settles (c : Client) (more : List Bytes) :
    Settles (Prod.map id (Client.feed · more)) (recv c) (recv (c.feed more)) := by
  refine settles_bind (readLoop_settles c more 0 2) fun d _ => ?_
  refine settles_bind (remLoop_settles d more _ _ _) fun r _ => ?_
  exact recvBody_settles r.2 more _ r.1

/-- On a part of a packet `recv` waits for the rest. -/
theorem recv_part {p : Packet} {rest : Bytes} (hp : Fits p) (ht : c.pending ++ rest = p.encode)
    (hrest : rest ≠ []) : recv c = .error .io := by
  have hfeed : (c.feed [rest]).pending = p.encode ++ [] := by
    rw [Client.pending_feed, List.flatten_singleton, ht, List.append_nil]
  obtain ⟨ev, c', hr, hnil, -⟩ := recv_handles hfeed hp
  rcases recv_settles c [rest] with hio | hmap
  · exact hio
  · rw [hr] at hmap
    cases hc : recv c with
    | error e =>
      rw [hc] at hmap
      cases hmap
    | ok r =>
      rw [hc] at hmap
      cases hmap
      rw [Client.pending_feed, List.flatten_singleton] at hnil
      exact absurd (List.append_eq_nil_iff.mp hnil).2 hrest

end AtNode.Mqtt
