import AtNode.Lib.TopicFilter

/-!
# The reserved topics of the broker

The management of the keys is an exchange of messages under `_manage/`. The plugin is asked for every
subscription and every publication, and lets a session that is not local have what does not begin
with that text. A subscription is served by matching, so the question is which filters that begin
otherwise reach below `_manage`.

The topic `_manage` itself is not reserved and is used by nobody.
-/

namespace AtNode.ManageAcl

open TopicFilter

def localHosts : List Text := ["127.0.0.1".toList, "::1".toList, "localhost".toList]

def manageCmdTopic : Text := "_manage/cmd".toList

def manageRespTopic : Text := "_manage/resp".toList

structure Session where
  remoteAddress : Option Text

def host (session : Option Session) : Text :=
  match session with
  | some s => s.remoteAddress.getD []
  | none => []

/-- `topic_filtering`; it does not look at the action. -/
def topicFiltering (session : Option Session) (topic : Option Text) : Bool :=
  match topic with
  | some t => if "_manage/".toList.isPrefixOf t then localHosts.contains (host session) else true
  | none => true

def IsLocal (session : Option Session) : Prop := host session ∈ localHosts

instance (session : Option Session) : Decidable (IsLocal session) :=
  inferInstanceAs (Decidable (_ ∈ _))

/-- The topic names below `_manage`. -/
def Reserved (topic : Text) : Prop := IsName topic ∧ "_manage/".toList <+: topic

/-- What the plugin lets the session have matches no reserved topic. -/
def KeepsOut (session : Option Session) (filter : Text) : Prop :=
  topicFiltering session (some filter) = true → ∀ topic, Reserved topic → delivers filter topic = false

/-- A filter whose first level is a wildcard with more below it: `#`, or `+` and further levels. -/
def OpensWide (filter : Text) : Prop :=
  levels filter = [['#']] ∨ ∃ l ls, levels filter = ['+'] :: l :: ls

section Laws

variable {session : Option Session} {filter topic : Text} {f : TopicFilter.Filter Text}

def manage : Text := "_manage".toList

theorem manage_isName : IsName manage := by decide

theorem manage_below : manage ++ ['/'] = "_manage/".toList := rfl

theorem reserved_topics : Reserved manageCmdTopic ∧ Reserved manageRespTopic := by
  constructor
  · exact ⟨by decide, by decide⟩
  · exact ⟨by decide, by decide⟩

/-- A remote session gets what does not begin with the reserved text. -/
theorem topicFiltering_remote (hremote : ¬ IsLocal session) (filter : Text) :
    topicFiltering session (some filter) = true ↔ ¬ "_manage/".toList <+: filter := by
  unfold topicFiltering
  dsimp only
  split
  · rename_i hp
    refine iff_of_false ?_ (not_not_intro (List.isPrefixOf_iff_prefix.mp hp))
    rw [List.contains_iff_mem]
    exact hremote
  · rename_i hp
    exact iff_of_true rfl fun h => hp (List.isPrefixOf_iff_prefix.mpr h)

theorem reaches_manage_iff (hf : parse filter = some f) :
    f.reaches manage = true ↔ OpensWide filter ∨ "_manage/".toList <+: filter := by
  rw [reaches_iff_levels hf, ← manage_below, prefix_iff_levels (by decide)]
  unfold OpensWide
  constructor
  · rintro (h | ⟨k, l, ls, rfl | rfl, hl⟩)
    · exact Or.inl (Or.inl h)
    · exact Or.inl (Or.inr ⟨l, ls, hl⟩)
    · exact Or.inr ⟨l, ls, hl⟩
  · rintro ((h | ⟨l, ls, hl⟩) | ⟨l, ls, hl⟩)
    · exact Or.inl h
    · exact Or.inr ⟨['+'], l, ls, Or.inl rfl, hl⟩
    · exact Or.inr ⟨manage, l, ls, Or.inr rfl, hl⟩

theorem not_reserved_of_opensWide (h : OpensWide filter) : ¬ "_manage/".toList <+: filter := by
  rw [← manage_below, prefix_iff_levels (by decide)]
  rintro ⟨l, ls, hl⟩
  rcases h with h | ⟨l', ls', h⟩
  · exact absurd (List.cons.inj (hl.symm.trans h)).1 (by decide)
  · exact absurd (List.cons.inj (hl.symm.trans h)).1 (by decide)

theorem keepsOut_iff (hremote : ¬ IsLocal session) (hf : parse filter = some f) :
    KeepsOut session filter ↔ ¬ OpensWide filter := by
  have hsent := delivers_below_iff hf manage_isName (by decide) (by decide)
  rw [manage_below, reaches_manage_iff hf] at hsent
  unfold KeepsOut
  rw [topicFiltering_remote hremote]
  constructor
  · intro h hwide
    obtain ⟨topic, hname, hbelow, hd⟩ := hsent.mpr (Or.inl hwide)
    have hd' := h (not_reserved_of_opensWide hwide) topic ⟨hname, hbelow⟩
    exact Bool.false_ne_true (hd'.symm.trans hd)
  · intro hwide hallowed topic hres
    refine Bool.eq_false_iff.mpr fun hd => ?_
    rcases hsent.mp ⟨topic, hres.1, hres.2, hd⟩ with h | h
    · exact hwide h
    · exact hallowed h

theorem not_opensWide_name (h : IsName topic) : ¬ OpensWide topic := by
  rintro (hl | ⟨l, ls, hl⟩)
  · exact h.2.2 (mem_of_mem_level (hl ▸ List.mem_cons_self) (List.mem_singleton_self '#'))
  · exact h.2.1 (mem_of_mem_level (hl ▸ List.mem_cons_self) (List.mem_singleton_self '+'))

end Laws

/-- For a session that is not local, what it may publish matches no reserved topic, and a filter it
may subscribe to matches none if and only if it does not open wide. -/
theorem remote_kept_out_iff {session : Option Session} (hremote : ¬ IsLocal session) :
    (∀ topic, IsName topic → KeepsOut session topic) ∧
      ∀ filter, parse filter ≠ none → (KeepsOut session filter ↔ ¬ OpensWide filter) := by
  constructor
  · intro topic hname
    exact (keepsOut_iff hremote (parse_name hname)).mpr (not_opensWide_name hname)
  · intro filter hf
    obtain ⟨f, hf⟩ := Option.ne_none_iff_exists'.mp hf
    exact keepsOut_iff hremote hf

section Remote

def remote : Option Session := some ⟨some "10.0.0.7".toList⟩

theorem remote_kept_out_of_names :
    (∀ topic, IsName topic → KeepsOut remote topic) ∧
      ∀ filter, parse filter ≠ none → (KeepsOut remote filter ↔ ¬ OpensWide filter) :=
  remote_kept_out_iff (by decide)

/-- A remote session may subscribe to `#` and to `+/cmd`, which match the topics of the management. -/
theorem wide_filters_let_in :
    ¬ IsLocal remote ∧ parse "#".toList ≠ none ∧ parse "+/cmd".toList ≠ none ∧
      ¬ KeepsOut remote "#".toList ∧ ¬ KeepsOut remote "+/cmd".toList := by
  refine ⟨by decide, by decide, by decide, fun h => ?_, fun h => ?_⟩
  · have hsent : delivers "#".toList manageRespTopic = true := by decide
    exact Bool.false_ne_true ((h (by decide) _ reserved_topics.2).symm.trans hsent)
  · have hsent : delivers "+/cmd".toList manageCmdTopic = true := by decide
    exact Bool.false_ne_true ((h (by decide) _ reserved_topics.1).symm.trans hsent)

end Remote

end AtNode.ManageAcl
