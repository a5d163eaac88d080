import AtNode.Esp32.AtCommands

/-!
# The lines a host receives

A text that is emitted is followed by a line end, so for the host it is one line only if it has no line
end inside. The text of a stored value may have some: then the host sees each piece as a line, and a piece
that reads `OK`, or begins like an error, ends the response for it.
-/

namespace AtNode.At

open Config Heapless ConfigReplies Api
open MqttExec (World)

/-- The line ends a response. -/
def Final (l : Text) : Prop := l = okLine ∨ "ERROR".toList <+: l

instance (l : Text) : Decidable (Final l) := inferInstanceAs (Decidable (_ ∨ _))

/-- Data lines, and one last line. -/
def Framed (ls : List Text) : Prop :=
  ∃ data last, ls = data ++ [last] ∧ Final last ∧ ∀ l ∈ data, ¬ Final l

/-- A character that ends a line, as it does on the console. -/
def lineEnd (c : Char) : Bool := c = '\r' || c = '\n'

/-- The lines a host makes of the emitted texts. -/
def received (ls : List Text) : List Text := ls.flatMap (List.splitOnP lineEnd)

/-- Without a line end. -/
def Plain (t : Text) : Prop := ∀ c ∈ t, lineEnd c = false

instance (t : Text) : Decidable (Plain t) := List.decidableBAll (fun c => lineEnd c = false) t

def firstLine (t : Text) : Text := t.takeWhile fun c => !lineEnd c

/-- Behind one of its line ends the text goes on with a line that ends a response. -/
def Stops : Text → Prop
  | [] => False
  | c :: t => lineEnd c ∧ Final (firstLine t) ∨ Stops t

/-- No line of the text ends a response. -/
def Quiet (l : Text) : Prop := ∀ p ∈ l.splitOnP lineEnd, ¬ Final p

variable {c : Char} {l s t v : Text} {ts : List Text} {cap : ℕ}

section Stops

theorem stops_cons_iff : Stops (c :: t) ↔ lineEnd c ∧ Final (firstLine t) ∨ Stops t := Iff.rfl

theorem firstLine_cons_end (h : lineEnd c = true) : firstLine (c :: t) = [] :=
  List.takeWhile_cons_of_neg (by simp [h])

theorem firstLine_cons (h : ¬ lineEnd c = true) : firstLine (c :: t) = c :: firstLine t :=
  List.takeWhile_cons_of_pos (by simp [h])

/-- The first line of a text, and the lines that make it stop. -/
theorem splitOnP_eq (t : Text) :
    ∃ rest, t.splitOnP lineEnd = firstLine t :: rest ∧ (Stops t ↔ ∃ p ∈ rest, Final p) := by
  induction t with
  | nil => exact ⟨[], rfl, ⟨False.elim, fun ⟨_, hp, _⟩ => by cases hp⟩⟩
  | cons c t ih =>
    obtain ⟨rest, hsplit, hstops⟩ := ih
    by_cases hc : lineEnd c = true
    · refine ⟨firstLine t :: rest, ?_, ?_⟩
      · rw [List.splitOnP_cons_eq_if_modifyHead, if_pos hc, hsplit, firstLine_cons_end hc]
      · rw [stops_cons_iff, hstops, List.exists_mem_cons_iff, and_iff_right hc]
    · refine ⟨rest, ?_, ?_⟩
      · rw [List.splitOnP_cons_eq_if_modifyHead, if_neg hc, hsplit, firstLine_cons hc]
        rfl
      · rw [stops_cons_iff, hstops]
        exact or_iff_right fun h => hc h.1

theorem quiet_iff : Quiet l ↔ ¬ Final (firstLine l) ∧ ¬ Stops l := by
  obtain ⟨rest, hsplit, hstops⟩ := splitOnP_eq l
  rw [Quiet, hsplit, List.forall_mem_cons, hstops]
  simp only [not_exists, not_and]

theorem stops_append (h : Plain s) : Stops (s ++ t) ↔ Stops t := by
  induction s with
  | nil => rfl
  | cons c s ih =>
    have hc := h c List.mem_cons_self
    rw [List.cons_append, stops_cons_iff, ih fun d hd => h d (List.mem_cons_of_mem _ hd)]
    exact or_iff_right fun hstop => by simp [hc] at hstop

theorem not_stops_of_plain (h : Plain s) : ¬ Stops s := by
  intro hstops
  rw [← List.append_nil s, stops_append h] at hstops
  exact hstops

theorem prefix_append_quote (p : Text) (hp : '"' ∉ p) : p <+: v ++ '"' :: s ↔ p <+: v := by
  induction p generalizing v with
  | nil => simp
  | cons a p ih =>
    rw [List.mem_cons, not_or] at hp
    cases v with
    | nil => simp [Ne.symm hp.1]
    | cons b v => rw [List.cons_append, List.cons_prefix_cons, List.cons_prefix_cons, ih hp.2]

theorem final_append_quote : Final (v ++ '"' :: s) ↔ "ERROR".toList <+: v := by
  have hok : v ++ '"' :: s ≠ okLine := by
    intro heq
    have hmem : '"' ∈ okLine := heq ▸ List.mem_append_right v List.mem_cons_self
    exact absurd hmem (by decide)
  rw [Final, or_iff_right hok, prefix_append_quote _ (by decide)]

/-- A quoted text stops a line as if the line ended with its quotation mark. -/
theorem final_firstLine_quote : Final (firstLine (v ++ '"' :: s)) ↔ Final (firstLine (v ++ ['"'])) := by
  have hquote : lineEnd '"' = false := by decide
  unfold firstLine
  by_cases hv : Plain v
  · have hall : ∀ c ∈ v, (!lineEnd c) = true := fun c hc => by rw [hv c hc]; rfl
    rw [List.takeWhile_append_of_pos hall, List.takeWhile_append_of_pos hall,
      List.takeWhile_cons_of_pos (by rw [hquote]; rfl), List.takeWhile_cons_of_pos (by rw [hquote]; rfl),
      final_append_quote, final_append_quote]
  · have hlen : (v.takeWhile fun c => !lineEnd c).length ≠ v.length := by
      intro heq
      apply hv
      intro c hc
      have hself := (List.takeWhile_prefix fun c => !lineEnd c).eq_of_length heq
      rw [← hself] at hc
      simpa using List.mem_takeWhile_imp hc
    rw [List.takeWhile_append, List.takeWhile_append, if_neg hlen, if_neg hlen]

theorem stops_append_quote : Stops (v ++ '"' :: s) ↔ Stops (v ++ ['"']) ∨ Stops s := by
  have hquote : Plain ['"'] := by decide
  induction v with
  | nil =>
    rw [List.nil_append, List.nil_append, ← List.singleton_append, stops_append hquote]
    exact (or_iff_right (not_stops_of_plain hquote)).symm
  | cons c v ih =>
    rw [List.cons_append, List.cons_append, stops_cons_iff, stops_cons_iff, final_firstLine_quote,
      or_assoc]
    exact or_congr_right ih

/-- The same with what follows the quotation mark in a format string. -/
theorem stops_append_closed {close : Text} (hquote : close.head? = some '"') (hplain : Plain close) :
    Stops (v ++ (close ++ s)) ↔ Stops (v ++ ['"']) ∨ Stops s := by
  obtain ⟨rest, rfl⟩ := List.head?_eq_some_iff.mp hquote
  have hrest : Plain rest := fun c hc => hplain c (List.mem_cons_of_mem _ hc)
  rw [List.cons_append, stops_append_quote, stops_append hrest]

end Stops

section Lines

/-- The first letter of a line that does not end a response. -/
def DataLine (l : Text) : Prop := l.head? ≠ some 'O' ∧ l.head? ≠ some 'E'

instance (l : Text) : Decidable (DataLine l) := inferInstanceAs (Decidable (_ ∧ _))

theorem DataLine.not_final (h : DataLine l) : ¬ Final l := by
  rintro (rfl | ⟨t, rfl⟩)
  · exact h.1 rfl
  · exact h.2 rfl

theorem DataLine.quiet_iff (h : DataLine l) : Quiet l ↔ ¬ Stops l := by
  have hfirst : DataLine (firstLine l) := by
    cases l with
    | nil => exact h
    | cons c l =>
      rw [firstLine, List.takeWhile_cons]
      split_ifs
      · exact h
      · decide
  rw [At.quiet_iff, and_iff_right hfirst.not_final]

theorem dataLine_of_front (hc : c ≠ 'O' ∧ c ≠ 'E') (h : c :: s <+: l) : DataLine l := by
  obtain ⟨t, rfl⟩ := h
  exact ⟨fun heq => hc.1 (Option.some.inj heq), fun heq => hc.2 (Option.some.inj heq)⟩

theorem dataLine_append (h : DataLine s) (hne : s ≠ []) : DataLine (s ++ t) := by
  obtain ⟨c, s, rfl⟩ := List.exists_cons_of_ne_nil hne
  exact h

/-- Nothing is written at all where the first piece does not fit. -/
theorem dataLine_write (h : DataLine t) (hne : t ≠ []) : DataLine (write cap [] (t :: ts)).1 := by
  obtain ⟨c, s, rfl⟩ := List.exists_cons_of_ne_nil hne
  rw [write, pushStr]
  split_ifs
  · have hc : c ≠ 'O' ∧ c ≠ 'E' := ⟨fun heq => h.1 (by rw [heq]; rfl), fun heq => h.2 (by rw [heq]; rfl)⟩
    exact dataLine_of_front hc (prefix_write cap ([] ++ c :: s) ts)
  · dsimp only
    decide

end Lines

section Plain

theorem plain_nil : Plain [] := fun _ hc => by cases hc

theorem plain_append (hs : Plain s) (ht : Plain t) : Plain (s ++ t) := by
  intro c hc
  exact (List.mem_append.mp hc).elim (hs c) (ht c)

theorem plain_put (hs : Plain s) (ht : Plain t) : Plain (put cap s t) := by
  rw [put, pushStr]
  split_ifs
  · exact plain_append hs ht
  · exact hs

theorem plain_write (hs : Plain s) (h : ∀ t ∈ ts, Plain t) : Plain (write cap s ts).1 := by
  induction ts generalizing s with
  | nil => exact hs
  | cons t ts ih =>
    rw [List.forall_mem_cons] at h
    rw [write, pushStr]
    split_ifs
    · exact ih (plain_append hs h.1) h.2
    · exact hs

theorem mem_formatArgs {ls as : List Text} (h : t ∈ formatArgs ls as) : t ∈ ls ∨ t ∈ as := by
  induction ls generalizing as with
  | nil =>
    cases as with
    | nil => cases h
    | cons a as => exact Or.inr h
  | cons l ls ih =>
    cases as with
    | nil => exact Or.inl h
    | cons a as =>
      simp only [formatArgs, List.mem_cons] at h ⊢
      rcases h with h | h | h
      · exact Or.inl (Or.inl h)
      · exact Or.inr (Or.inl h)
      · exact (ih h).imp Or.inr Or.inr

theorem plain_foldl {α : Type*} {g : Text → α → Text} (hg : ∀ s a, Plain s → Plain (g s a))
    (hs : Plain s) (as : List α) : Plain (as.foldl g s) := by
  induction as generalizing s with
  | nil => exact hs
  | cons a as ih => exact ih (hg s a hs)

theorem plain_digits (n : ℕ) : Plain (digits n) := by
  intro c hc
  have hdigit := Nat.isDigit_of_mem_toDigits (by decide) (by decide) hc
  rw [lineEnd, Bool.or_eq_false_iff, decide_eq_false_iff_not, decide_eq_false_iff_not]
  constructor
  · rintro rfl
    exact absurd hdigit (by decide)
  · rintro rfl
    exact absurd hdigit (by decide)

theorem plain_boolText (b : Bool) : Plain (boolText b) := by
  cases b <;> decide

theorem plain_byteHex (b : UInt8) : Plain (Bond.byteHex b) ∧ Plain (Bond.byteHexUpper b) := by
  have hdigit : ∀ n < 16, lineEnd (Nat.digitChar n) = false ∧ lineEnd (Nat.digitChar n).toUpper = false := by
    decide
  have hhi := hdigit (b.toNat / 16) (by have := b.toNat_lt; omega)
  have hlo := hdigit (b.toNat % 16) (Nat.mod_lt _ (by decide))
  simp only [Bond.byteHexUpper, Bond.byteHex, List.map_cons, List.map_nil, Plain, List.forall_mem_cons]
  exact ⟨⟨hhi.1, hlo.1, fun _ hc => by cases hc⟩, ⟨hhi.2, hlo.2, fun _ hc => by cases hc⟩⟩

theorem plain_ipText (ip : Option (Vector UInt8 4)) : Plain (ipText ip) := by
  cases ip with
  | none => exact plain_nil
  | some a =>
    refine plain_write plain_nil fun t ht => ?_
    rcases mem_formatArgs ht with ht | ht
    · exact (by decide : ∀ t ∈ [[], ".".toList, ".".toList, ".".toList], Plain t) t ht
    · simp only [List.mem_cons, List.not_mem_nil, or_false] at ht
      rcases ht with rfl | rfl | rfl | rfl <;> exact plain_digits _

theorem plain_abilityJson (f : Features) : Plain (abilityJson f) := by
  refine plain_write plain_nil fun t ht => ?_
  have hformat : ∀ t ∈ abilityFormat, Plain t := by decide +kernel
  rcases mem_formatArgs ht with ht | ht
  · exact hformat t ht
  · simp only [abilityArgs, List.mem_cons, List.not_mem_nil, or_false, Features.kbdCap,
      Features.ledCap] at ht
    rcases ht with rfl | rfl | rfl | rfl | rfl | rfl | rfl | rfl
    all_goals first | exact plain_boolText _ | split_ifs <;> decide

end Plain

section Buffers

/-- A data line without line ends. -/
structure PlainLine (l : Text) : Prop where
  data : DataLine l
  plain : Plain l

instance (l : Text) : Decidable (PlainLine l) :=
  decidable_of_iff (DataLine l ∧ Plain l) ⟨fun h => ⟨h.1, h.2⟩, fun h => ⟨h.data, h.plain⟩⟩

theorem PlainLine.quiet (h : PlainLine l) : Quiet l := h.data.quiet_iff.mpr (not_stops_of_plain h.plain)

theorem plainLine_ofList (h : PlainLine s) : PlainLine (String.ofList s).toList := by
  rwa [String.toList_ofList]

theorem plainLine_buffer {ls as : List Text} (ht : DataLine t) (hne : t ≠ [])
    (hls : ∀ s ∈ t :: ls, Plain s) (has : ∀ s ∈ as, Plain s) : PlainLine (buffer (t :: ls) as) := by
  constructor
  · cases as with
    | nil => exact dataLine_write ht hne
    | cons a as => exact dataLine_write ht hne
  · exact plain_write plain_nil fun s hs => (mem_formatArgs hs).elim (hls s) (has s)

/-- A text behind the head of a line decides alone whether the line stops the response. -/
theorem quiet_append (hs : PlainLine s) (hne : s ≠ []) : Quiet (s ++ t) ↔ ¬ Stops t := by
  rw [(dataLine_append hs.data hne).quiet_iff, stops_append hs.plain]

theorem buffer_fits {a : Text} (h : byteLen s + byteLen a ≤ listCap) : buffer [s] [a] = s ++ a := by
  have hfits : byteLen [] + byteLen [s, a].flatten ≤ listCap := by
    rw [List.flatten_cons, List.flatten_singleton, byteLen_append, byteLen_nil]
    omega
  rw [buffer, formatArgs, formatArgs, write_fits hfits]
  simp

end Buffers

end AtNode.At
