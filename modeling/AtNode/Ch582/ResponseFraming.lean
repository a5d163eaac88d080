import AtNode.Ch582.CurrentLine

/-!
# How an AT line of the CH582 firmware is answered

`AT_Response` formats a text into 256 bytes of its stack and appends the line end where it still
fits; `at_process_line` appends the status line when the handler returns. A handler is arbitrary
here: it passes some texts and returns, or resets the chip and does not return.

It is proved that no index leaves the buffer, and that the bytes written are the texts, each cut at
the end of the buffer at most and with its line end, and the status line, exactly when the table
could be searched, the handler returned, and every text leaves room for its line end or has it where
it is cut.
-/

namespace AtNode.AtCmds

open AtParser CString

abbrev crlf : Text := [0x0D, 0x0A]

section Buffer

abbrev respSize : ℕ := 256

/-- `buf` of `AT_Response`, with what stood on the stack. -/
abbrev Stack := {b : List UInt8 // b.length = respSize}

/-- `vsnprintf` into the buffer: what fits of the text, and a null byte. -/
def vsnprintf (buf t : List UInt8) : List UInt8 :=
  (t.take (buf.length - 1) ++ [0]) ++ buf.drop ((t.take (buf.length - 1)).length + 1)

/-- `buf[i] = c`, unless the index is outside. -/
def store (buf : List UInt8) (i : ℕ) (c : UInt8) : Option (List UInt8) :=
  if i < buf.length then some (buf.set i c) else none

def load (buf : List UInt8) (len : ℕ) : Option (List UInt8) :=
  if len ≤ buf.length then some (buf.take len) else none

/-- `AT_Response`: the bytes for the channel. -/
def atResponseIn (stack : Stack) (t : Text) : Option Text := do
  let buf := vsnprintf stack.1 t
  let len := if buf.length ≤ t.length then buf.length - 1 else t.length
  if len < buf.length - 2 then
    let buf ← store buf len 0x0D
    let buf ← store buf (len + 1) 0x0A
    let buf ← store buf (len + 1 + 1) 0
    load buf (len + 1 + 1)
  else load buf len

theorem length_vsnprintf {buf : List UInt8} (hpos : 0 < buf.length) (t : List UInt8) :
    (vsnprintf buf t).length = buf.length := by
  have hle := List.length_take_le (buf.length - 1) t
  simp only [vsnprintf, List.length_append, List.length_singleton, List.length_drop]
  omega

theorem store_append {a b : List UInt8} {c d : UInt8} :
    store (a ++ c :: b) a.length d = some (a ++ d :: b) := by
  rw [store, if_pos (by simp), List.set_append_right _ _ le_rfl, Nat.sub_self, List.set_cons_zero]

/-- Behind a text that leaves room for its line end stand the null byte and two more bytes. -/
theorem vsnprintf_of_fits {buf t : List UInt8} (hbuf : buf.length = 256) (h : t.length < 254) :
    ∃ a b g, vsnprintf buf t = t ++ 0 :: a :: b :: g := by
  have htake : t.take (buf.length - 1) = t := List.take_of_length_le (by omega)
  have hdrop : (buf.drop (t.length + 1)).length = 256 - (t.length + 1) := by
    rw [List.length_drop, hbuf]
  rw [vsnprintf, htake]
  cases hd : buf.drop (t.length + 1) with
  | nil =>
    rw [hd, List.length_nil] at hdrop
    omega
  | cons a d =>
    cases d with
    | nil =>
      rw [hd, List.length_singleton] at hdrop
      omega
    | cons b g => exact ⟨a, b, g, by rw [List.append_assoc, List.singleton_append]⟩

theorem take_vsnprintf {buf t : List UInt8} {k : ℕ} (hk : k ≤ t.length) (hbuf : k < buf.length) :
    (vsnprintf buf t).take k = t.take k := by
  have hlen : k ≤ (t.take (buf.length - 1)).length := by
    rw [List.length_take]
    omega
  rw [vsnprintf, List.append_assoc, List.take_append_of_le_length hlen, List.take_take,
    Nat.min_eq_left (by omega)]

/-- No index leaves the buffer, and what stood in it is not sent. -/
theorem atResponseIn_eq (stack : Stack) (t : Text) :
    atResponseIn stack t = some (atResponse t) := by
  obtain ⟨buf, hsize⟩ := stack
  have hbuf : buf.length = 256 := hsize
  have hlen : (vsnprintf buf t).length = 256 := (length_vsnprintf (by omega) t).trans hbuf
  unfold atResponseIn atResponse
  simp only [hlen]
  by_cases hfits : t.length < 254
  · obtain ⟨a, b, g, hv⟩ := vsnprintf_of_fits hbuf hfits
    have hcr : store (t ++ 0 :: a :: b :: g) t.length 0x0D = some (t ++ 0x0D :: a :: b :: g) :=
      store_append
    have hlf : store (t ++ 0x0D :: a :: b :: g) (t.length + 1) 0x0A =
        some (t ++ 0x0D :: 0x0A :: b :: g) := by
      have h := store_append (a := t ++ [0x0D]) (b := b :: g) (c := a) (d := 0x0A)
      simpa using h
    have hnul : store (t ++ 0x0D :: 0x0A :: b :: g) (t.length + 1 + 1) 0 =
        some (t ++ 0x0D :: 0x0A :: 0 :: g) := by
      have h := store_append (a := t ++ [0x0D, 0x0A]) (b := g) (c := b) (d := 0)
      simpa using h
    have hload : load (t ++ 0x0D :: 0x0A :: 0 :: g) (t.length + 1 + 1) = some (t ++ crlf) := by
      have hsplit : t ++ 0x0D :: 0x0A :: 0 :: g = (t ++ crlf) ++ 0 :: g := by simp
      have hcount : t.length + 1 + 1 = (t ++ crlf).length := by simp
      rw [hsplit, hcount, load, if_pos (by simp), List.take_left]
    have hnot : ¬ 256 ≤ t.length := by omega
    simp only [hfits, hnot, ↓reduceIte, hv, Nat.reduceSub, hcr, hlf, hnul, Option.bind_eq_bind,
      Option.bind_some, hload]
  · have hlong : ¬ (if 256 ≤ t.length then 256 - 1 else t.length) < 256 - 2 := by
      split_ifs <;> omega
    rw [if_neg hlong, if_neg hfits]
    split_ifs with hclamp
    · rw [load, if_pos (by omega), take_vsnprintf (by omega) (by omega)]
    · rw [load, if_pos (by omega), take_vsnprintf le_rfl (by omega), List.take_of_length_le le_rfl,
        List.take_of_length_le (by omega)]

end Buffer

section Lines

/-- The texts as lines: each is cut at the end of the buffer at most, and has its line end. -/
inductive Lines : List Text → Text → Prop where
  | nil : Lines [] []
  | cons {t : Text} {ts : List Text} {out : Text} (k : ℕ) (hk : 253 ≤ k) (h : Lines ts out) :
      Lines (t :: ts) (t.take k ++ crlf ++ out)

/-- The texts as lines, and a status line. -/
def Framed (texts : List Text) (out : Text) : Prop :=
  ∃ body status, Lines texts body ∧ (status = ok ∨ status = error) ∧ out = body ++ (status ++ crlf)

/-- A text leaves room for its line end, or has it where it is cut. -/
def Fits (t : Text) : Prop := t.length < 254 ∨ (t.drop 253).take 2 = crlf

instance (t : Text) : Decidable (Fits t) := inferInstanceAs (Decidable (_ ∨ _))

theorem atResponse_of_fits {t : Text} (h : Fits t) : atResponse t = t.take 253 ++ crlf := by
  unfold atResponse
  split_ifs with hlt
  · rw [List.take_of_length_le (by omega)]
  · rw [← h.resolve_left hlt, ← List.take_add]

theorem length_atResponse_le (t : Text) {k : ℕ} (hk : 253 ≤ k) :
    (atResponse t).length ≤ (t.take k ++ crlf).length := by
  have hlen : (t.take k ++ crlf).length = min k t.length + 2 := by
    rw [List.length_append, List.length_take]
    rfl
  rw [hlen]
  unfold atResponse
  split_ifs with hlt
  · rw [List.length_append, List.length_cons, List.length_singleton]
    omega
  · rw [List.length_take]
    omega

theorem fits_of_line {t : Text} {k : ℕ} (hk : 253 ≤ k) (h : t.take k ++ crlf = atResponse t) :
    Fits t := by
  by_cases hlt : t.length < 254
  · exact Or.inl hlt
  · rw [atResponse, if_neg hlt] at h
    have hlen := congrArg List.length h
    rw [List.length_append, List.length_take, List.length_take, List.length_cons,
      List.length_singleton] at hlen
    have hcut : t.take k = t.take 253 := by
      obtain rfl | hlong : k = 253 ∨ t.length ≤ 253 := by omega
      · rfl
      · omega
    rw [hcut, show 255 = 253 + 2 from rfl, List.take_add] at h
    exact Or.inr (List.append_cancel_left h).symm

theorem length_le_of_lines {ts : List Text} {out : Text} (h : Lines ts out) :
    (ts.flatMap atResponse).length ≤ out.length := by
  induction h with
  | nil => exact le_rfl
  | @cons t _ _ k hk _ ih =>
    have hline := length_atResponse_le t hk
    rw [List.flatMap_cons, List.length_append, List.length_append]
    omega

theorem lines_of_fits {ts : List Text} (h : ∀ t ∈ ts, Fits t) :
    Lines ts (ts.flatMap atResponse) := by
  induction ts with
  | nil => exact .nil
  | cons t ts ih =>
    rw [List.flatMap_cons, atResponse_of_fits (h t List.mem_cons_self)]
    exact .cons 253 le_rfl (ih fun u hu => h u (List.mem_cons_of_mem t hu))

/-- No line is shorter than what is written, so the lines are aligned. -/
theorem fits_of_lines {ts : List Text} {out : Text} (h : Lines ts out)
    (heq : out = ts.flatMap atResponse) : ∀ t ∈ ts, Fits t := by
  induction h with
  | nil => exact fun t ht => absurd ht List.not_mem_nil
  | @cons t ts out k hk hrest ih =>
    rw [List.flatMap_cons] at heq
    have hhead := length_atResponse_le t hk
    have htail := length_le_of_lines hrest
    have htotal : (t.take k ++ crlf).length + out.length =
        (atResponse t).length + (ts.flatMap atResponse).length := by
      rw [← List.length_append, ← List.length_append, heq]
    obtain ⟨hline, hout⟩ := List.append_inj heq (by omega)
    intro u hu
    rcases List.mem_cons.mp hu with rfl | hmem
    · exact fits_of_line hk hline
    · exact ih hout u hmem

theorem status_eq {a b : Text} {s s' : Text} (hs : s = ok ∨ s = error) (hs' : s' = ok ∨ s' = error)
    (h : a ++ (s ++ crlf) = b ++ (s' ++ crlf)) : s = s' := by
  have hok (c : Text) : c ++ (ok ++ crlf) = (c ++ [0x4F]) ++ [0x4B, 0x0D, 0x0A] := by
    rw [List.append_assoc]
    rfl
  have herror (c : Text) :
      c ++ (error ++ crlf) = (c ++ [0x45, 0x52, 0x52, 0x4F]) ++ [0x52, 0x0D, 0x0A] := by
    rw [List.append_assoc]
    rfl
  rcases hs with rfl | rfl <;> rcases hs' with rfl | rfl
  · rfl
  · rw [hok, herror] at h
    exact absurd (List.append_inj_right' h rfl) (by decide)
  · rw [hok, herror] at h
    exact absurd (List.append_inj_right' h rfl) (by decide)
  · rfl

theorem framed_iff {texts : List Text} {status : Text} (hstatus : status = ok ∨ status = error) :
    Framed texts (texts.flatMap atResponse ++ (status ++ crlf)) ↔ ∀ t ∈ texts, Fits t := by
  constructor
  · rintro ⟨body, status', hbody, hstatus', heq⟩
    obtain rfl := status_eq hstatus hstatus' heq
    exact fits_of_lines hbody (List.append_cancel_right heq).symm
  · intro h
    exact ⟨_, status, lines_of_fits h, hstatus, rfl⟩

theorem not_framed_of_texts (texts : List Text) : ¬ Framed texts (texts.flatMap atResponse) := by
  rintro ⟨body, status, hbody, -, heq⟩
  have hle := length_le_of_lines hbody
  have hlen := congrArg List.length heq
  rw [List.length_append, List.length_append, List.length_cons, List.length_singleton] at hlen
  omega

end Lines

section Answer

/-- What a handler passes to `AT_Response`, and what it returns if it returns. -/
structure HandlerRun where
  texts : List Text
  ret : Option ℤ

structure Row where
  name : Text
  handler : ℕ → (ℕ → Option Text) → HandlerRun

/-- One `AT_Response` after the other; each call finds the stack as it is then. -/
def responses : (ℕ → Stack) → List Text → Option Text
  | _, [] => some []
  | stack, t :: ts => do
    let out ← atResponseIn (stack 0) t
    let rest ← responses (fun i => stack (i + 1)) ts
    some (out ++ rest)

variable (rows : List Row) (stack : ℕ → Stack) (s : ArgStore) (buf : List UInt8)

/-- The handler the table has for a name, run on the arguments of the line. -/
def called (name : Text) : Option HandlerRun :=
  (rows.find? fun r => sameName name r.name).map fun r => r.handler (s.argc buf) (s.after buf).arg

/-- The texts of a line in the order in which they are formatted. -/
def answerTexts : Option HandlerRun → List Text
  | none => [error]
  | some r =>
    r.texts ++ match r.ret with
      | some ret => [if ret = 0 then ok else error]
      | none => []

/-- `at_process_line`: the bytes it writes, unless it reads a null pointer or leaves a buffer. -/
def atAnswer : Option Text :=
  match (processHead (lineOver s.line buf)).1 with
  | none => some []
  | some _ => do
    let name ← (s.after buf).arg 0
    responses stack (answerTexts (called rows s buf name))

/-- A line is answered with what its handler passed, line by line, and a status line. -/
def AnsweredInLines : Prop :=
  ∀ line, commandLine (received buf) = some line →
    ∃ name out, (s.after buf).arg 0 = some name ∧ atAnswer rows stack s buf = some out ∧
      Framed ((called rows s buf name).elim [] HandlerRun.texts) out

theorem responses_eq (ts : List Text) : responses stack ts = some (ts.flatMap atResponse) := by
  induction ts generalizing stack with
  | nil => rfl
  | cons t ts ih =>
    rw [responses, atResponseIn_eq, Option.bind_eq_bind, Option.bind_some, ih, List.flatMap_cons]
    rfl

variable {rows s buf} {line name : Text}

theorem atAnswer_eq (hline : commandLine (received buf) = some line)
    (hname : (s.after buf).arg 0 = some name) :
    atAnswer rows stack s buf =
      some ((answerTexts (called rows s buf name)).flatMap atResponse) := by
  rcases processHead_eq s.line buf with ⟨hnone, -⟩ | ⟨line', ps, -, hps, -⟩
  · rw [hline] at hnone
    cases hnone
  · rw [atAnswer, hps]
    simp only [hname, Option.bind_eq_bind, Option.bind_some, responses_eq]

theorem framed_answer_iff (c : Option HandlerRun) :
    Framed (c.elim [] HandlerRun.texts) ((answerTexts c).flatMap atResponse) ↔
      ∀ r, c = some r → r.ret ≠ none ∧ ∀ t ∈ r.texts, Fits t := by
  have hstatus (ret : ℤ) : atResponse (if ret = 0 then ok else error) =
      (if ret = 0 then ok else error) ++ crlf := by
    split_ifs <;> rfl
  cases c with
  | none =>
    have herror : (answerTexts none).flatMap atResponse =
        ([] : List Text).flatMap atResponse ++ (error ++ crlf) := rfl
    rw [herror, Option.elim_none, framed_iff (Or.inr rfl)]
    simp
  | some r =>
    rw [Option.elim_some, answerTexts]
    cases hret : r.ret with
    | none =>
      rw [List.append_nil]
      constructor
      · exact fun h => absurd h (not_framed_of_texts r.texts)
      · exact fun h => absurd hret (h r rfl).1
    | some ret =>
      rw [List.flatMap_append, List.flatMap_singleton, hstatus,
        framed_iff (by split_ifs <;> simp)]
      constructor
      · intro h r' hr'
        obtain rfl := Option.some.inj hr'
        exact ⟨by simp [hret], h⟩
      · exact fun h => (h r rfl).2

/-- A line is answered in lines exactly when `argv[0]` is a string and, if a row has that name, its
handler returns and passes no text that loses its line end. -/
theorem answered_in_lines_iff (rows : List Row) (stack : ℕ → Stack) (s : ArgStore)
    (buf : List UInt8) :
    AnsweredInLines rows stack s buf ↔ ∀ line, commandLine (received buf) = some line →
      ∃ name, (s.after buf).arg 0 = some name ∧
        ∀ r, called rows s buf name = some r → r.ret ≠ none ∧ ∀ t ∈ r.texts, Fits t := by
  constructor
  · intro h line hline
    obtain ⟨name, out, hname, hout, hframed⟩ := h line hline
    rw [atAnswer_eq stack hline hname] at hout
    obtain rfl := Option.some.inj hout
    exact ⟨name, hname, (framed_answer_iff _).mp hframed⟩
  · intro h line hline
    obtain ⟨name, hname, hfits⟩ := h line hline
    exact ⟨name, _, hname, atAnswer_eq stack hline hname, (framed_answer_iff _).mpr hfits⟩

def helpRow : Row := ⟨bytes "AT+HELP", fun _ _ => ⟨helpTexts, some 0⟩⟩

/-- The first two parts of the help have 275 and 266 bytes: 255 of them are sent, and no line end. -/
theorem help_loses_line_ends :
    ¬ AnsweredInLines [helpRow] (fun _ => ⟨List.replicate respSize 0, List.length_replicate⟩) .boot
      (bytes "AT+HELP") := by
  intro h
  have hline : commandLine (received (bytes "AT+HELP")) = some (bytes "AT+HELP") := by
    decide +kernel
  have hname : (ArgStore.boot.after (bytes "AT+HELP")).arg 0 = some (bytes "AT+HELP") := by
    decide +kernel
  have hrow : called [helpRow] .boot (bytes "AT+HELP") (bytes "AT+HELP") =
      some ⟨helpTexts, some 0⟩ := rfl
  obtain ⟨name, out, hname', hout, hframed⟩ := h _ hline
  obtain rfl := Option.some.inj (hname.symm.trans hname')
  rw [atAnswer_eq _ hline hname] at hout
  obtain rfl := Option.some.inj hout
  have hfits := ((framed_answer_iff _).mp hframed _ hrow).2
  exact absurd hfits (by decide +kernel)

end Answer

end AtNode.AtCmds
