import AtNode.Esp32.HttpConfig

/-!
# The arguments of the configuration handlers

Whether an argument is there is decided by a search for its key and an equals sign in the whole text;
its value is taken from a pair whose key it is. The two agree but for a key that ends the key of
another pair or stands in a value: such an argument counts as given, with the empty value, and in the
body it hides the argument of the query.

A handler changes exactly the settings whose arguments are given, with their values, where no
argument is misread or where the empty value does no harm.
-/

namespace AtNode.Http

open Config Query
open CfgStore (Device readAfter)

section Pairs

variable {text pair : Text}

theorem mem_intersperse {α : Type*} {x sep : α} {xs : List α} (h : x ∈ xs) : x ∈ xs.intersperse sep := by
  induction xs with
  | nil => exact h
  | cons y ys ih =>
    cases ys with
    | nil => exact h
    | cons z zs =>
      rw [List.intersperse_cons_cons]
      rcases List.mem_cons.mp h with rfl | hmem
      · exact List.mem_cons_self
      · exact List.mem_cons_of_mem _ (List.mem_cons_of_mem _ (ih hmem))

theorem infix_of_mem_splitOn (h : pair ∈ text.splitOn '&') : pair <:+: text := by
  have hflat : ((text.splitOn '&').intersperse ['&']).flatten = text := List.intercalate_splitOn '&'
  rw [← hflat]
  exact List.infix_of_mem_flatten (mem_intersperse h)

end Pairs

section Lookup

variable {text key : Text} {a : Args}

/-- Some pair of the text has precisely the key. -/
def KeyIn (text key : Text) : Prop :=
  ∃ pair ∈ text.splitOn '&', (Pairs.splitOnce '=' pair).map Prod.fst = some key

instance : Decidable (KeyIn text key) :=
  inferInstanceAs (Decidable (∃ pair ∈ text.splitOn '&', (Pairs.splitOnce '=' pair).map Prod.fst = _))

def Args.Present (a : Args) (key : Text) : Prop := KeyIn a.body key ∨ KeyIn a.query key

instance : Decidable (a.Present key) := inferInstanceAs (Decidable (_ ∨ _))

/-- The value in the body if the body has the key, and otherwise that in the query. -/
def Args.value (a : Args) (key : Text) : Option Text :=
  if KeyIn a.body key then queryGet a.body key else queryGet a.query key

structure ExactAt (a : Args) (key : Text) : Prop where
  has : a.has key = true ↔ a.Present key
  get : a.get key = a.value key

/-- The key with an equals sign is in the text, and no pair has the key. -/
def Stray (text key : Text) : Prop := hasIn text key = true ∧ ¬ KeyIn text key

instance : Decidable (Stray text key) := inferInstanceAs (Decidable (_ ∧ _))

/-- The key is stray in the body, where the query does not have it with the empty value, or it is
stray in the query, where the body does not have it. -/
def Misread (a : Args) (key : Text) : Prop :=
  (Stray a.body key ∧ ¬ (KeyIn a.query key ∧ queryGet a.query key = some [])) ∨
    (Stray a.query key ∧ ¬ KeyIn a.body key)

instance : Decidable (Misread a key) := inferInstanceAs (Decidable (_ ∨ _))

theorem hasIn_of_keyIn (h : KeyIn text key) : hasIn text key = true := by
  obtain ⟨pair, hmem, hkey⟩ := h
  obtain ⟨⟨k, v⟩, hsplit, rfl⟩ := Option.map_eq_some_iff.mp hkey
  have hpair : pair = (k ++ ['=']) ++ v := by
    rw [Pairs.eq_of_splitOnce hsplit, List.append_assoc]
    rfl
  have hfront : k ++ ['='] <:+: pair := by
    rw [hpair]
    exact (List.prefix_append _ _).isInfix
  exact decide_eq_true (hfront.trans (infix_of_mem_splitOn hmem))

theorem queryGet_of_not_keyIn (h : ¬ KeyIn text key) : queryGet text key = some [] := by
  have hnone : Pairs.lookup '&' '=' key text = none := by
    rw [Pairs.lookup, List.findSome?_eq_none_iff]
    intro pair hmem
    rw [Pairs.valueOf]
    cases hsplit : Pairs.splitOnce '=' pair with
    | none => rfl
    | some kv =>
      have hne : kv.1 ≠ key := fun heq => h ⟨pair, hmem, by rw [hsplit, Option.map_some, heq]⟩
      exact if_neg hne
  rw [queryGet, hnone]

theorem get_of_hasIn (h : hasIn a.body key = true) : a.get key = queryGet a.body key := if_pos h

theorem get_of_not_hasIn (h : ¬ hasIn a.body key = true) : a.get key = queryGet a.query key := if_neg h

theorem has_iff : a.has key = true ↔ hasIn a.body key = true ∨ hasIn a.query key = true := by
  rw [Args.has, Bool.or_eq_true]

theorem exactAt_of_not_misread (h : ¬ Misread a key) : ExactAt a key := by
  by_cases hbody : KeyIn a.body key
  · have hin := hasIn_of_keyIn hbody
    exact ⟨iff_of_true (has_iff.mpr (Or.inl hin)) (Or.inl hbody), by
      rw [get_of_hasIn hin, Args.value, if_pos hbody]⟩
  · by_cases hin : hasIn a.body key = true
    · obtain ⟨hquery, hempty⟩ := not_not.mp fun hnot => h (Or.inl ⟨⟨hin, hbody⟩, hnot⟩)
      exact ⟨iff_of_true (has_iff.mpr (Or.inl hin)) (Or.inr hquery), by
        rw [get_of_hasIn hin, queryGet_of_not_keyIn hbody, Args.value, if_neg hbody, hempty]⟩
    · have hquery : hasIn a.query key = true → KeyIn a.query key := fun hq =>
        not_not.mp fun hnot => h (Or.inr ⟨⟨hq, hnot⟩, hbody⟩)
      refine ⟨?_, ?_⟩
      · rw [has_iff]
        exact ⟨fun hhas => Or.inr (hquery (hhas.resolve_left hin)), fun hpresent =>
          Or.inr (hasIn_of_keyIn (hpresent.resolve_left hbody))⟩
      · rw [get_of_not_hasIn hin, Args.value, if_neg hbody]

/-- A misread key counts as given, with the empty value. -/
theorem of_misread (h : Misread a key) : a.has key = true ∧ a.get key = some [] := by
  rcases h with ⟨⟨hin, hbody⟩, -⟩ | ⟨⟨hin, hquery⟩, hbody⟩
  · exact ⟨has_iff.mpr (Or.inl hin), (get_of_hasIn hin).trans (queryGet_of_not_keyIn hbody)⟩
  · refine ⟨has_iff.mpr (Or.inr hin), ?_⟩
    by_cases hin' : hasIn a.body key = true
    · exact (get_of_hasIn hin').trans (queryGet_of_not_keyIn hbody)
    · exact (get_of_not_hasIn hin').trans (queryGet_of_not_keyIn hquery)

theorem exactAt_iff : ExactAt a key ↔ ¬ Misread a key := by
  refine ⟨fun hexact hmis => ?_, exactAt_of_not_misread⟩
  obtain ⟨hhas, hget⟩ := of_misread hmis
  have hpresent := hexact.has.mp hhas
  rw [hexact.get] at hget
  rcases hmis with ⟨⟨-, hbody⟩, hnot⟩ | ⟨⟨-, hquery⟩, hbody⟩
  · rw [Args.value, if_neg hbody] at hget
    exact hnot ⟨hpresent.resolve_left hbody, hget⟩
  · exact hpresent.elim hbody hquery

end Lookup

section Settings

variable {flash : Text → Bool} {a : Args} {args : List (Text × Key)} {d d' : Device}

/-- Each setting is changed to the value of its argument, as far as the registry takes it, or not at
all where there is no argument; and no other setting is changed. -/
structure ChangesExactly (flash : Text → Bool) (a : Args) (args : List (Text × Key)) (d d' : Device) :
    Prop where
  given : ∀ arg ∈ args, a.Present arg.1 → ∃ v, a.value arg.1 = some v ∧
    getStr d'.cfg arg.2 = readAfter arg.2 v (flash arg.2.name) (getStr d.cfg arg.2)
  absent : ∀ arg ∈ args, ¬ a.Present arg.1 → getStr d'.cfg arg.2 = getStr d.cfg arg.2
  other : ∀ k ∉ args.map Prod.snd, getStr d'.cfg k = getStr d.cfg k

/-- The handler gets to its answer, and has changed exactly these settings. -/
def Exact (flash : Text → Bool) (a : Args) (args : List (Text × Key)) (d : Device)
    (r : Option (Reply × Device)) : Prop :=
  ∃ reply d', r = some (reply, d') ∧ ChangesExactly flash a args d d'

/-- The value of the argument decodes, and the empty value does what the argument asks for where the
argument is misread. -/
structure Harmless (flash : Text → Bool) (a : Args) (d : Device) (arg : Text × Key) : Prop where
  given : a.Present arg.1 → ∃ v, a.value arg.1 = some v ∧ (Misread a arg.1 →
    readAfter arg.2 [] (flash arg.2.name) (getStr d.cfg arg.2) =
      readAfter arg.2 v (flash arg.2.name) (getStr d.cfg arg.2))
  absent : ¬ a.Present arg.1 → Misread a arg.1 →
    readAfter arg.2 [] (flash arg.2.name) (getStr d.cfg arg.2) = getStr d.cfg arg.2

def argRead (flash : Text → Bool) (a : Args) (arg : Text × Key) (old : Text) : Option Text :=
  if a.has arg.1 then (a.get arg.1).map fun v => readAfter arg.2 v (flash arg.2.name) old
  else some old

section Reads

variable {arg : Text × Key} {old v : Text}

theorem argRead_of_misread (h : Misread a arg.1) :
    argRead flash a arg old = some (readAfter arg.2 [] (flash arg.2.name) old) := by
  obtain ⟨hhas, hget⟩ := of_misread h
  rw [argRead, if_pos hhas, hget, Option.map_some]

theorem argRead_of_present (h : ExactAt a arg.1) (hpresent : a.Present arg.1)
    (hv : a.value arg.1 = some v) :
    argRead flash a arg old = some (readAfter arg.2 v (flash arg.2.name) old) := by
  rw [argRead, if_pos (h.has.mpr hpresent), h.get, hv, Option.map_some]

theorem argRead_of_absent (h : ExactAt a arg.1) (habsent : ¬ a.Present arg.1) :
    argRead flash a arg old = some old := if_neg fun hhas => habsent (h.has.mp hhas)

end Reads

theorem setArg_reads {arg : Text × Key} (h : setArg flash a arg d = some d') :
    argRead flash a arg (getStr d.cfg arg.2) = some (getStr d'.cfg arg.2) ∧
      ∀ k ≠ arg.2, getStr d'.cfg k = getStr d.cfg k := by
  rw [setArg] at h
  rw [argRead]
  by_cases hhas : a.has arg.1 = true
  · rw [if_pos hhas] at h ⊢
    obtain ⟨v, hv, rfl⟩ := Option.map_eq_some_iff.mp h
    rw [hv, Option.map_some, put, CfgStore.getStr_set_self]
    refine ⟨rfl, fun k hk => CfgStore.getStr_set_other d _ fun hname => hk ?_⟩
    exact name_injective k (mem_tableDef k) arg.2 (mem_tableDef arg.2) hname
  · rw [if_neg hhas] at h ⊢
    cases h
    exact ⟨rfl, fun k hk => rfl⟩

theorem setArgs_reads (hkeys : (args.map Prod.snd).Nodup) (h : setArgs flash a args d = some d') :
    (∀ arg ∈ args, argRead flash a arg (getStr d.cfg arg.2) = some (getStr d'.cfg arg.2)) ∧
      ∀ k ∉ args.map Prod.snd, getStr d'.cfg k = getStr d.cfg k := by
  induction args generalizing d with
  | nil =>
    cases h
    exact ⟨fun arg hmem => absurd hmem List.not_mem_nil, fun k hk => rfl⟩
  | cons arg args ih =>
    rw [List.map_cons, List.nodup_cons] at hkeys
    obtain ⟨d₁, hfirst, hrest⟩ := Option.bind_eq_some_iff.mp h
    obtain ⟨hread, hother⟩ := setArg_reads hfirst
    obtain ⟨hreads, hothers⟩ := ih hkeys.2 hrest
    refine ⟨fun arg' hmem => ?_, fun k hk => ?_⟩
    · rcases List.mem_cons.mp hmem with rfl | hmem
      · rw [hothers _ hkeys.1]
        exact hread
      · have hne : arg'.2 ≠ arg.2 := fun heq => hkeys.1 (heq ▸ List.mem_map_of_mem hmem)
        rw [← hother _ hne]
        exact hreads arg' hmem
    · rw [List.map_cons, List.mem_cons, not_or] at hk
      rw [hothers k hk.2, hother k hk.1]

/-- The loop stops in a slice only where one of the values it comes to does not decode. -/
theorem setArgs_isSome (flash : Text → Bool)
    (h : ∀ arg ∈ args, a.has arg.1 = true → a.get arg.1 ≠ none) (d : Device) :
    ∃ d', setArgs flash a args d = some d' := by
  induction args generalizing d with
  | nil => exact ⟨d, rfl⟩
  | cons arg args ih =>
    have hfirst : ∃ d₁, setArg flash a arg d = some d₁ := by
      rw [setArg]
      split_ifs with hhas
      · obtain ⟨v, hv⟩ := Option.ne_none_iff_exists'.mp (h arg List.mem_cons_self hhas)
        exact ⟨_, by rw [hv, Option.map_some]⟩
      · exact ⟨d, rfl⟩
    obtain ⟨d₁, hfirst⟩ := hfirst
    obtain ⟨d', hrest⟩ := ih (fun arg' hmem => h arg' (List.mem_cons_of_mem _ hmem)) d₁
    exact ⟨d', by rw [setArgs, hfirst, Option.bind_some, hrest]⟩

theorem get_ne_none (h : ∀ arg ∈ args, Harmless flash a d arg) :
    ∀ arg ∈ args, a.has arg.1 = true → a.get arg.1 ≠ none := by
  intro arg hmem hhas
  by_cases hmis : Misread a arg.1
  · rw [(of_misread hmis).2]
    exact Option.some_ne_none _
  · have hexact := exactAt_of_not_misread hmis
    obtain ⟨v, hv, -⟩ := (h arg hmem).given (hexact.has.mp hhas)
    rw [hexact.get, hv]
    exact Option.some_ne_none _

theorem changesExactly_iff (hkeys : (args.map Prod.snd).Nodup) (h : setArgs flash a args d = some d') :
    ChangesExactly flash a args d d' ↔ ∀ arg ∈ args, Harmless flash a d arg := by
  obtain ⟨hreads, hothers⟩ := setArgs_reads hkeys h
  constructor
  · intro hch arg hmem
    have hread := hreads arg hmem
    refine ⟨fun hpresent => ?_, fun habsent hmis => ?_⟩
    · obtain ⟨v, hv, hd'⟩ := hch.given arg hmem hpresent
      refine ⟨v, hv, fun hmis => ?_⟩
      rw [argRead_of_misread hmis, hd'] at hread
      exact Option.some.inj hread
    · rw [argRead_of_misread hmis, hch.absent arg hmem habsent] at hread
      exact Option.some.inj hread
  · intro hharmless
    refine ⟨fun arg hmem hpresent => ?_, fun arg hmem habsent => ?_, hothers⟩
    · have hread := hreads arg hmem
      obtain ⟨v, hv, hmisread⟩ := (hharmless arg hmem).given hpresent
      refine ⟨v, hv, ?_⟩
      by_cases hmis : Misread a arg.1
      · rw [argRead_of_misread hmis, hmisread hmis] at hread
        exact (Option.some.inj hread).symm
      · rw [argRead_of_present (exactAt_of_not_misread hmis) hpresent hv] at hread
        exact (Option.some.inj hread).symm
    · have hread := hreads arg hmem
      by_cases hmis : Misread a arg.1
      · rw [argRead_of_misread hmis, (hharmless arg hmem).absent habsent hmis] at hread
        exact (Option.some.inj hread).symm
      · rw [argRead_of_absent (exactAt_of_not_misread hmis) habsent] at hread
        exact (Option.some.inj hread).symm

/-- A handler that answers after the loop over its arguments. -/
theorem exact_iff (hkeys : (args.map Prod.snd).Nodup) (reply : Device → Reply) :
    Exact flash a args d ((setArgs flash a args d).map fun d => (reply d, d)) ↔
      ∀ arg ∈ args, Harmless flash a d arg := by
  constructor
  · rintro ⟨r, d', hr, hch⟩
    obtain ⟨d₁, hsome, heq⟩ := Option.map_eq_some_iff.mp hr
    cases heq
    exact (changesExactly_iff hkeys hsome).mp hch
  · intro h
    obtain ⟨d', hsome⟩ := setArgs_isSome flash (get_ne_none h) d
    exact ⟨reply d', d', by rw [hsome, Option.map_some], (changesExactly_iff hkeys hsome).mpr h⟩

theorem hMqttConfig_exact_iff :
    Exact flash a mqttArgs d (hMqttConfig true flash a d) ↔ ∀ arg ∈ mqttArgs, Harmless flash a d arg := by
  have hkeys : (mqttArgs.map Prod.snd).Nodup := by decide
  rw [hMqttConfig, if_neg (by decide)]
  exact exact_iff hkeys fun _ => _

theorem hWifiConfig_exact_iff :
    Exact flash a wifiArgs d (hWifiConfig flash a d) ↔ ∀ arg ∈ wifiArgs, Harmless flash a d arg := by
  have hkeys : (wifiArgs.map Prod.snd).Nodup := by decide
  rw [hWifiConfig]
  exact exact_iff hkeys fun d => _

end Settings

section OneKey

variable {flash : Text → Bool} {a : Args} {d d' : Device}

def reads (d : Device) : Key → Text := fun k => getStr d.cfg k

/-- The value of `val`, or that of `value` where there is no `val`. -/
def Args.setting (a : Args) : Option Text :=
  if a.Present "val".toList then a.value "val".toList else a.value "value".toList

/-- The lookup on which the value depends is misread. -/
def ValueMisread (a : Args) : Prop :=
  Misread a "val".toList ∨ (¬ a.Present "val".toList ∧ Misread a "value".toList)

/-- The handler gets to its answer, and has set the key to the value if there is a key. -/
def SetExact (flash : Text → Bool) (a : Args) (d : Device) (r : Option (Reply × Device)) : Prop :=
  ∃ reply d', r = some (reply, d') ∧
    (a.Present "key".toList → ∃ k v, a.value "key".toList = some k ∧ a.setting = some v ∧
      reads d' = reads (put flash k v d)) ∧
    (¬ a.Present "key".toList → reads d' = reads d)

/-- The key and the value decode; a call with a misread key was to change nothing; and the empty
value does what the call asks for where the value is misread. -/
structure SetHarmless (flash : Text → Bool) (a : Args) (d : Device) : Prop where
  given : a.Present "key".toList → ∃ k v, a.value "key".toList = some k ∧ a.setting = some v ∧
    (Misread a "key".toList → reads (put flash k v d) = reads d) ∧
    (¬ Misread a "key".toList → ValueMisread a →
      reads (put flash k [] d) = reads (put flash k v d))
  absent : ¬ a.Present "key".toList → Misread a "key".toList → ¬ ValueMisread a → a.setting ≠ none

theorem setValue_of_misread (h : ValueMisread a) : setValue a = some [] := by
  rw [setValue]
  by_cases hval : Misread a "val".toList
  · rw [if_pos (of_misread hval).1, (of_misread hval).2]
  · obtain ⟨habsent, hvalue⟩ := h.resolve_left hval
    rw [if_neg fun hhas => habsent ((exactAt_of_not_misread hval).has.mp hhas), (of_misread hvalue).2]

theorem setValue_of_not_misread (h : ¬ ValueMisread a) : setValue a = a.setting := by
  have hval := exactAt_of_not_misread fun hmis => h (Or.inl hmis)
  rw [setValue, Args.setting]
  by_cases hpresent : a.Present "val".toList
  · rw [if_pos hpresent, if_pos (hval.has.mpr hpresent), hval.get]
  · have hvalue := exactAt_of_not_misread fun hmis => h (Or.inr ⟨hpresent, hmis⟩)
    rw [if_neg hpresent, if_neg fun hhas => hpresent (hval.has.mp hhas), hvalue.get]

theorem put_nil (v : Text) (d : Device) : put flash [] v d = d := by
  have hnone : tableDef.find? (fun k => k.name = []) = none := by decide
  rw [put, Device.set]
  dsimp only
  rw [hnone]

theorem hConfigSet_device : (hConfigSet flash a d).map Prod.snd =
    if a.has "key".toList then
      (a.get "key".toList).bind fun k => (setValue a).map fun v => put flash k v d
    else some d := by
  rw [hConfigSet]
  cases a.has "key".toList with
  | false => rfl
  | true =>
    rw [if_neg (by decide), if_pos rfl]
    cases a.get "key".toList with
    | none => rfl
    | some k =>
      cases setValue a with
      | none => rfl
      | some v =>
        rw [Option.bind_some, Option.bind_some, Option.map_some, Option.map_some, Option.map_some, put]
        rcases d.set ⟨k, v, flash k⟩ with ⟨_ | _, d'⟩
        · rfl
        · rfl

theorem setExact_iff : SetExact flash a d (hConfigSet flash a d) ↔
    ∃ d', (hConfigSet flash a d).map Prod.snd = some d' ∧
      (a.Present "key".toList → ∃ k v, a.value "key".toList = some k ∧ a.setting = some v ∧
        reads d' = reads (put flash k v d)) ∧
      (¬ a.Present "key".toList → reads d' = reads d) := by
  constructor
  · rintro ⟨reply, d', hr, h⟩
    exact ⟨d', by rw [hr, Option.map_some], h⟩
  · rintro ⟨d', hr, h⟩
    obtain ⟨⟨reply, d₁⟩, hsome, rfl⟩ := Option.map_eq_some_iff.mp hr
    exact ⟨reply, d₁, hsome, h⟩

theorem setValue_isSome (h : ¬ ValueMisread a → a.setting ≠ none) : ∃ v, setValue a = some v := by
  by_cases hmis : ValueMisread a
  · exact ⟨[], setValue_of_misread hmis⟩
  · rw [setValue_of_not_misread hmis]
    exact Option.ne_none_iff_exists'.mp (h hmis)

/-- With a misread key the call fails, since no key has the empty name. -/
theorem device_of_misread (hmis : Misread a "key".toList) {d' : Device} :
    (hConfigSet flash a d).map Prod.snd = some d' ↔ d' = d ∧ ∃ v, setValue a = some v := by
  obtain ⟨hhas, hget⟩ := of_misread hmis
  rw [hConfigSet_device, if_pos hhas, hget, Option.bind_some, Option.map_eq_some_iff]
  constructor
  · rintro ⟨v, hv, rfl⟩
    exact ⟨put_nil v d, v, hv⟩
  · rintro ⟨rfl, v, hv⟩
    exact ⟨v, hv, put_nil v d'⟩

theorem device_of_present (hpresent : a.Present "key".toList) (hmis : ¬ Misread a "key".toList)
    {d' : Device} : (hConfigSet flash a d).map Prod.snd = some d' ↔
      ∃ k v, a.value "key".toList = some k ∧ setValue a = some v ∧ put flash k v d = d' := by
  have hexact := exactAt_of_not_misread hmis
  rw [hConfigSet_device, if_pos (hexact.has.mpr hpresent), hexact.get, Option.bind_eq_some_iff]
  simp only [Option.map_eq_some_iff, exists_and_left]

theorem device_of_absent (hpresent : ¬ a.Present "key".toList) (hmis : ¬ Misread a "key".toList) :
    (hConfigSet flash a d).map Prod.snd = some d := by
  rw [hConfigSet_device]
  exact if_neg fun hhas => hpresent ((exactAt_of_not_misread hmis).has.mp hhas)

theorem setHarmless_of_setExact (h : SetExact flash a d (hConfigSet flash a d)) :
    SetHarmless flash a d := by
  obtain ⟨d', hd', hgiven, -⟩ := setExact_iff.mp h
  refine ⟨fun hpresent => ?_, fun habsent hmis hvalue => ?_⟩
  · obtain ⟨k, v, hk, hv, hreads⟩ := hgiven hpresent
    refine ⟨k, v, hk, hv, fun hmis => ?_, fun hmis hvalue => ?_⟩
    · obtain ⟨rfl, -⟩ := (device_of_misread hmis).mp hd'
      exact hreads.symm
    · obtain ⟨k', v', hk', hv', rfl⟩ := (device_of_present hpresent hmis).mp hd'
      rw [hk] at hk'
      rw [setValue_of_misread hvalue] at hv'
      cases hk'
      cases hv'
      exact hreads
  · obtain ⟨-, v, hv⟩ := (device_of_misread hmis).mp hd'
    rw [setValue_of_not_misread hvalue] at hv
    rw [hv]
    exact Option.some_ne_none v

theorem setExact_of_setHarmless (h : SetHarmless flash a d) :
    SetExact flash a d (hConfigSet flash a d) := by
  rw [setExact_iff]
  by_cases hpresent : a.Present "key".toList
  · obtain ⟨k, v, hk, hv, hkey, hvalue⟩ := h.given hpresent
    by_cases hmis : Misread a "key".toList
    · have hsome : ∃ v, setValue a = some v := setValue_isSome fun _ => by
        rw [hv]
        exact Option.some_ne_none v
      exact ⟨d, (device_of_misread hmis).mpr ⟨rfl, hsome⟩, fun _ => ⟨k, v, hk, hv, (hkey hmis).symm⟩,
        fun hnot => absurd hpresent hnot⟩
    · by_cases hmisValue : ValueMisread a
      · exact ⟨put flash k [] d,
          (device_of_present hpresent hmis).mpr ⟨k, [], hk, setValue_of_misread hmisValue, rfl⟩,
          fun _ => ⟨k, v, hk, hv, hvalue hmis hmisValue⟩, fun hnot => absurd hpresent hnot⟩
      · have hset : setValue a = some v := (setValue_of_not_misread hmisValue).trans hv
        exact ⟨put flash k v d, (device_of_present hpresent hmis).mpr ⟨k, v, hk, hset, rfl⟩,
          fun _ => ⟨k, v, hk, hv, rfl⟩, fun hnot => absurd hpresent hnot⟩
  · by_cases hmis : Misread a "key".toList
    · have hsome := setValue_isSome (h.absent hpresent hmis)
      exact ⟨d, (device_of_misread hmis).mpr ⟨rfl, hsome⟩, fun hyes => absurd hyes hpresent,
        fun _ => rfl⟩
    · exact ⟨d, device_of_absent hpresent hmis, fun hyes => absurd hyes hpresent, fun _ => rfl⟩

end OneKey

section Law

variable (flash : Text → Bool) (a : Args) (d : Device)

/-- For every body and query: the lookup of a key is exact unless the key is misread; and a
configuration handler changes exactly the settings that are given, each to its value, unless a value
does not decode or an empty value that was misread does harm. -/
theorem lookup_exact_iff (key : Text) :
    (ExactAt a key ↔ ¬ Misread a key) ∧
      (Exact flash a mqttArgs d (hMqttConfig true flash a d) ↔
        ∀ arg ∈ mqttArgs, Harmless flash a d arg) ∧
      (Exact flash a wifiArgs d (hWifiConfig flash a d) ↔
        ∀ arg ∈ wifiArgs, Harmless flash a d arg) ∧
      (SetExact flash a d (hConfigSet flash a d) ↔ SetHarmless flash a d) :=
  ⟨exactAt_iff, hMqttConfig_exact_iff, hWifiConfig_exact_iff,
    setHarmless_of_setExact, setExact_of_setHarmless⟩

end Law

def withPassword : Device :=
  ((CfgStore.boot (Vector.replicate 6 0) fun _ => none).set ⟨Key.wifiPass.name, "secret".toList, true⟩).2

/-- The argument `bypass` clears the password. -/
theorem bypass_clears_password :
    ¬ ExactAt ⟨"bypass=1".toList, []⟩ "pass".toList ∧
      getStr withPassword.cfg .wifiPass = "secret".toList ∧
      ¬ Exact (fun _ => true) ⟨"bypass=1".toList, []⟩ wifiArgs withPassword
        (hWifiConfig (fun _ => true) ⟨"bypass=1".toList, []⟩ withPassword) := by
  have hmis : Misread ⟨"bypass=1".toList, []⟩ "pass".toList := by decide +kernel
  have habsent : ¬ Args.Present ⟨"bypass=1".toList, []⟩ "pass".toList := by decide +kernel
  have hread : getStr withPassword.cfg .wifiPass = "secret".toList :=
    CfgStore.getStr_set_self _ .wifiPass "secret".toList true
  refine ⟨fun h => exactAt_iff.mp h hmis, hread, fun h => ?_⟩
  have hharmless := hWifiConfig_exact_iff.mp h ("pass".toList, .wifiPass) (by decide)
  have hempty := hharmless.absent habsent hmis
  rw [hread] at hempty
  exact absurd hempty (by decide)

end AtNode.Http
