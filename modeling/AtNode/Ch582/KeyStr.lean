import AtNode.Ch582.PlaybackComplete

/-!
# Fidelity of the text playback

The text of `AT+KEY_STR` is its argument with the escapes for Enter, Tab and backslash read, cut to
96 characters. A host that takes a usage as pressed when the report before did not hold it types the
characters of the text that its layout knows. Only the first character can go wrong: when the text
replaces another playback in the middle of a press of the same key, the host sees no new press.
-/

namespace AtNode.Playback

open Hid Run

/-- A text with its escapes read, without any limit. -/
def unescape : List UInt8 → List UInt8
  | [] => []
  | [c] => [c]
  | c :: d :: p =>
    if c = '\x5C'.toUInt8 ∧ d = 'n'.toUInt8 then '\n'.toUInt8 :: unescape p
    else if c = '\x5C'.toUInt8 ∧ d = 't'.toUInt8 then '\t'.toUInt8 :: unescape p
    else if c = '\x5C'.toUInt8 ∧ d = '\x5C'.toUInt8 then '\x5C'.toUInt8 :: unescape p
    else c :: unescape (d :: p)

theorem unescapeChar_eq (p : List UInt8) :
    unescape p = match unescapeChar p with
      | none => []
      | some (c, p') => c :: unescape p' := by
  rcases p with _ | ⟨c, _ | ⟨d, p⟩⟩
  · rfl
  · rfl
  · rw [unescape, unescapeChar]
    by_cases hc : c = '\x5C'.toUInt8
    · simp only [hc, true_and, if_true]
      split
      · rfl
      · split
        · rfl
        · split <;> rfl
    · simp only [hc, false_and, if_false]

theorem keystrCopy_eq (n : ℕ) (p : List UInt8) : (keystrCopy n p).1 = (unescape p).take n := by
  induction n generalizing p with
  | zero => rfl
  | succ n ih =>
    rw [unescapeChar_eq, keystrCopy]
    cases unescapeChar p with
    | none => rfl
    | some q =>
      change q.1 :: (keystrCopy n q.2).1 = (q.1 :: unescape q.2).take (n + 1)
      rw [ih q.2, List.take_succ_cons]

theorem reportsOf_strScript (text : List UInt8) :
    reportsOf (strScript text) = text.flatMap strokeOf := by
  rw [strScript, reportsOf_append, reportsOf_flush]
  exact List.append_nil _

theorem final_ticks_idle (paces : List ℕ) {h : History} (ht : h.st.timer = none) :
    final step h (paces.map .tick) = h := by
  induction paces with
  | nil => rfl
  | cons pace paces ih => rwa [List.map_cons, final_cons, step, if_pos ht]

/-- The ticks of a text flush what is left of it, and nothing after that. -/
theorem flushed_text (paces : List ℕ) {h : History} (hs : InText h.st)
    (ha : h.st.keystrActive = true) (ht : h.st.timer ≠ none)
    (hn : 2 * h.st.keystrBuf.length + 1 ≤ h.st.keystrIdx + paces.length) :
    (final step h (paces.map .tick)).flushed = h.flushed ++ reportsOf (strLeft h.st) := by
  induction paces generalizing h with
  | nil =>
    have hidx := hs ha
    rw [List.length_nil] at hn
    omega
  | cons pace paces ih =>
    have hleft := strLeft_tick pace hs ha
    have hin := inText_tick pace hs
    have hstep : step h (.tick pace) = play h (kbSeqProcessEvent pace h.st) := if_neg ht
    rw [List.map_cons, final_cons, hstep, hleft, reportsOf_append, ← List.append_assoc]
    rw [List.length_cons] at hn
    by_cases hlt : h.st.keystrIdx / 2 < h.st.keystrBuf.length
    · rcases Nat.mod_two_eq_zero_or_one h.st.keystrIdx with he | ho
      · rw [tick_press pace ha hlt he] at hin ⊢
        exact ih (h := play h _) hin ha (by simp [play]) (by simp only [play]; omega)
      · rw [tick_release pace ha hlt ho] at hin ⊢
        exact ih (h := play h _) hin ha (by simp [play]) (by simp only [play]; omega)
    · rw [tick_end pace ha (Nat.le_of_not_lt hlt), final_ticks_idle paces rfl]
      exact (List.append_nil _).symm

/-- The report the host saw last. -/
def lastFlushed (h : History) : Report := h.flushed.getLastD .rest

/-- What the host sees of a text: it types the characters it knows, and no key stays down. -/
structure Faithful (prev : Report) (text : List UInt8) (shown : List Report) : Prop where
  typed_eq : typed prev shown = mappable text
  released : ∀ r, shown.getLast? = some r → r = .rest

/-- The key of the first character stands in the report the host saw last. -/
def Clash (prev : Report) (text : List UInt8) : Prop :=
  ∃ c mods key, text.head? = some c ∧ keystrMap c = some (mods, key) ∧ key ∈ prev.keys

theorem mappable_cons (c : UInt8) (text : List UInt8) :
    mappable (c :: text) =
      (if keystrMap c = none then [] else [charOfByte c]) ++ mappable text := by
  unfold mappable
  rw [List.map_cons, List.filter_cons]
  by_cases hc : keystrMap c = none
  · rw [if_pos hc, if_neg (by simpa using (keystrMap_eq_none_iff c).mp hc), List.nil_append]
  · rw [if_neg hc, if_pos (by simpa using (keystrMap_eq_none_iff c).not_left.mp hc),
      List.singleton_append]

theorem typed_strokeOf_none {c : UInt8} (hc : keystrMap c = none) (prev : Report)
    (rs : List Report) : typed prev (strokeOf c ++ rs) = typed .rest rs := by
  simp only [strokeOf, pressOf, hc, List.nil_append, List.singleton_append, typed_rest]

theorem typed_strokeOf_some {c mods key : UInt8} (hc : keystrMap c = some (mods, key))
    (prev : Report) (rs : List Report) :
    typed prev (strokeOf c ++ rs) =
      if key ∈ prev.keys then typed .rest rs else charOfByte c :: typed .rest rs := by
  obtain ⟨hkey, hchar⟩ := charOf_keystrMap hc
  simp only [strokeOf, pressOf, hc, List.cons_append, List.nil_append]
  exact typed_stroke hkey hchar rs

theorem not_mem_rest {key : UInt8} (h : key ≠ 0) : key ∉ Report.rest.keys := by
  simpa [Report.rest] using h

theorem typed_text (text : List UInt8) : typed .rest (text.flatMap strokeOf) = mappable text := by
  induction text with
  | nil => rfl
  | cons c text ih =>
    rw [List.flatMap_cons, mappable_cons]
    cases hc : keystrMap c with
    | none => rw [typed_strokeOf_none hc, ih, if_pos rfl, List.nil_append]
    | some k =>
      rw [typed_strokeOf_some hc, if_neg (not_mem_rest (charOf_keystrMap hc).1), ih,
        if_neg (Option.some_ne_none k), List.singleton_append]

theorem typed_eq_iff (prev : Report) (text : List UInt8) :
    typed prev (text.flatMap strokeOf) = mappable text ↔ ¬ Clash prev text := by
  cases text with
  | nil => simp [Clash, mappable]
  | cons c text =>
    rw [List.flatMap_cons, mappable_cons]
    cases hc : keystrMap c with
    | none =>
      rw [typed_strokeOf_none hc, typed_text, if_pos rfl, List.nil_append]
      simp [Clash, hc]
    | some k =>
      obtain ⟨mods, key⟩ := k
      rw [typed_strokeOf_some hc, typed_text, if_neg (Option.some_ne_none _), List.singleton_append]
      by_cases hmem : key ∈ prev.keys
      · simp [Clash, hc, hmem]
      · simp [Clash, hc, hmem]

theorem getLast_strokes (text : List UInt8) (r : Report)
    (h : (text.flatMap strokeOf).getLast? = some r) : r = .rest := by
  rcases List.eq_nil_or_concat text with rfl | ⟨text, c, rfl⟩
  · simp at h
  · simpa [strokeOf, eq_comm] using h

theorem faithful_iff (prev : Report) (text : List UInt8) :
    Faithful prev text (text.flatMap strokeOf) ↔ ¬ Clash prev text := by
  rw [← typed_eq_iff]
  exact ⟨fun h => h.typed_eq, fun h => ⟨h, getLast_strokes text⟩⟩

/-- What is flushed between an accepted `AT+KEY_STR` and the end of its text. -/
theorem flushed_keyStr (h : History) (name arg : List UInt8) (more : List (List UInt8))
    (paces : List ℕ) (hn : 2 * keystrMax < paces.length) :
    (final step (step h (.keyStr (name :: arg :: more))) (paces.map .tick)).flushed =
      h.flushed ++ ((unescape arg).take keystrMax).flatMap strokeOf := by
  have hloaded : StrLoaded h.st (step h (.keyStr (name :: arg :: more))).st
      ((unescape arg).take keystrMax) :=
    ⟨keystrCopy_eq keystrMax arg, rfl, rfl, by simp [step, accept, atCmdKeyStr], rfl, rfl⟩
  have hlen : ((unescape arg).take keystrMax).length ≤ keystrMax := by
    rw [List.length_take]
    exact Nat.min_le_left _ _
  have hleft := hloaded.left_eq .str
  rw [if_pos rfl] at hleft
  rw [flushed_text paces hloaded.inText hloaded.keystrActive hloaded.timer
    (by rw [hloaded.keystrBuf]; omega)]
  change h.flushed ++ reportsOf (left _ .str) = _
  rw [hleft, reportsOf_strScript]

theorem shown_faithful_iff (h : History) (name arg : List UInt8) (more : List (List UInt8))
    (paces : List ℕ) (hn : 2 * keystrMax < paces.length) :
    Faithful (lastFlushed h) ((unescape arg).take keystrMax)
        ((final step h (.keyStr (name :: arg :: more) :: paces.map .tick)).flushed.drop
          h.flushed.length) ↔
      ¬ Clash (lastFlushed h) ((unescape arg).take keystrMax) := by
  rw [final_cons, flushed_keyStr _ _ _ _ _ hn, List.drop_left]
  exact faithful_iff _ _

/-- A text typed after any run of commands and ticks, once its ticks have passed, is what the host
sees and types if and only if the key of its first character is not in the report the host saw
last. -/
theorem keyStr_faithful_iff (es : List Event) (name arg : List UInt8) (more : List (List UInt8))
    (paces : List ℕ) (hn : 2 * keystrMax < paces.length) :
    Faithful (lastFlushed (final step boot es)) ((unescape arg).take keystrMax)
        ((final step boot (es ++ .keyStr (name :: arg :: more) :: paces.map .tick)).flushed.drop
          (final step boot es).flushed.length) ↔
      ¬ Clash (lastFlushed (final step boot es)) ((unescape arg).take keystrMax) := by
  rw [final_append]
  exact shown_faithful_iff _ _ _ _ _ hn

/-- The text `Ok`, typed from a keyboard at rest. -/
theorem keyStr_faithful_at_rest :
    Faithful (lastFlushed (final step boot []))
        ((unescape ['O'.toUInt8, 'k'.toUInt8]).take keystrMax)
        ((final step boot ([] ++ .keyStr [[], ['O'.toUInt8, 'k'.toUInt8]] ::
          (List.replicate 193 15).map .tick)).flushed.drop
          (final step boot []).flushed.length) := by
  apply (keyStr_faithful_iff [] [] _ [] _ (by rw [List.length_replicate]; decide)).mpr
  rintro ⟨c, mods, key, hc, hkey, hmem⟩
  exact not_mem_rest (charOf_keystrMap hkey).1 hmem

/-- The text `a` again, after the press tick of a first text `a`. -/
theorem restarted_text_unfaithful :
    ¬ ∀ (es : List Event) (name arg : List UInt8) (more : List (List UInt8)) (paces : List ℕ),
      2 * keystrMax < paces.length →
        Faithful (lastFlushed (final step boot es)) ((unescape arg).take keystrMax)
          ((final step boot (es ++ .keyStr (name :: arg :: more) :: paces.map .tick)).flushed.drop
            (final step boot es).flushed.length) := by
  intro hall
  have hlen : 2 * keystrMax < (List.replicate 193 15).length := by
    rw [List.length_replicate]
    decide
  have hf := hall [.keyStr [[], ['a'.toUInt8]], .tick 15] [] ['a'.toUInt8] [] _ hlen
  rw [final_append] at hf
  apply (shown_faithful_iff _ _ _ _ _ hlen).mp hf
  refine ⟨'a'.toUInt8, 0, 4, by decide, by decide, ?_⟩
  have hlast : lastFlushed (final step boot [.keyStr [[], ['a'.toUInt8]], .tick 15]) =
      .press 0 4 := rfl
  rw [hlast]
  simp [Report.press]

end AtNode.Playback
