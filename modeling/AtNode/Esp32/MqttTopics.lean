import Mathlib.Data.List.Nodup
import AtNode.Esp32.Heapless

/-!
# The topics of the MQTT client

`Topics::new` writes the four topics of the device into strings of eighty bytes and does not look at
the results; the task writes the client id in the same way. The registry admits host names of up to
ninety-five bytes. The longest of the texts, the state topic, fits up to a host name of sixty-seven.
-/

namespace AtNode.MqttTopics

open Config Heapless

abbrev topicCap : ℕ := 80

structure Topics where
  cmd : Text
  resp : Text
  state : Text
  info : Text

def topic (name suffix : Text) : Text := (write topicCap [] ["atnode/".toList, name, suffix]).1

def Topics.new (name : Text) : Topics where
  cmd := topic name "/cmd".toList
  resp := topic name "/resp".toList
  state := topic name "/state".toList
  info := topic name "/info".toList

/-- The client id `task` makes of the host name. -/
def clientId (hostname : Text) : Text := (write topicCap [] ["atnode-".toList, hostname]).1

/-- The topics and the client id have the host name in full. -/
structure Exact (name : Text) : Prop where
  cmd : (Topics.new name).cmd = "atnode/".toList ++ name ++ "/cmd".toList
  resp : (Topics.new name).resp = "atnode/".toList ++ name ++ "/resp".toList
  state : (Topics.new name).state = "atnode/".toList ++ name ++ "/state".toList
  info : (Topics.new name).info = "atnode/".toList ++ name ++ "/info".toList
  client : clientId name = "atnode-".toList ++ name

/-- No topic is the same as another. -/
def Distinct (t : Topics) : Prop := [t.cmd, t.resp, t.state, t.info].Nodup

theorem topic_eq_iff (name suffix : Text) :
    topic name suffix = "atnode/".toList ++ name ++ suffix ↔
      7 + byteLen name + byteLen suffix ≤ 80 := by
  have hnil : byteLen [] ≤ topicCap := Nat.zero_le _
  have hiff := write_eq_append_iff ["atnode/".toList, name, suffix] hnil
  have hflat : ["atnode/".toList, name, suffix].flatten = "atnode/".toList ++ name ++ suffix := by
    simp
  rw [hflat, List.nil_append, byteLen_append, byteLen_append] at hiff
  have hfront : byteLen "atnode/".toList = 7 := by decide
  rw [hfront, byteLen_nil, Nat.zero_add] at hiff
  exact hiff

theorem clientId_eq_iff (name : Text) :
    clientId name = "atnode-".toList ++ name ↔ 7 + byteLen name ≤ 80 := by
  have hnil : byteLen [] ≤ topicCap := Nat.zero_le _
  have hiff := write_eq_append_iff ["atnode-".toList, name] hnil
  have hflat : ["atnode-".toList, name].flatten = "atnode-".toList ++ name := by simp
  have hfront : byteLen "atnode-".toList = 7 := by decide
  rw [hflat, List.nil_append, byteLen_append, hfront, byteLen_nil, Nat.zero_add] at hiff
  exact hiff

theorem Exact.distinct {name : Text} (h : Exact name) : Distinct (Topics.new name) := by
  unfold Distinct
  rw [h.cmd, h.resp, h.state, h.info]
  have hinj := List.append_right_injective ("atnode/".toList ++ name)
  have hsuffix : ["/cmd".toList, "/resp".toList, "/state".toList, "/info".toList].Nodup := by decide
  exact List.Nodup.map hinj hsuffix

theorem exact_iff (name : Text) : Exact name ↔ byteLen name ≤ 67 := by
  have hcmd : byteLen "/cmd".toList = 4 := by decide
  have hresp : byteLen "/resp".toList = 5 := by decide
  have hstate : byteLen "/state".toList = 6 := by decide
  have hinfo : byteLen "/info".toList = 5 := by decide
  constructor
  · intro h
    have hs := (topic_eq_iff name "/state".toList).mp h.state
    rw [hstate] at hs
    omega
  · intro h
    refine ⟨(topic_eq_iff _ _).mpr ?_, (topic_eq_iff _ _).mpr ?_, (topic_eq_iff _ _).mpr ?_,
      (topic_eq_iff _ _).mpr ?_, (clientId_eq_iff _).mpr ?_⟩
    · rw [hcmd]
      omega
    · rw [hresp]
      omega
    · rw [hstate]
      omega
    · rw [hinfo]
      omega
    · omega

/-- The topics and the client id are exact, and no topic is another, exactly for host names of up to
sixty-seven bytes. -/
theorem topics_exact_iff (name : Text) :
    (Exact name ∧ Distinct (Topics.new name)) ↔ byteLen name ≤ 67 := by
  rw [← exact_iff]
  exact ⟨fun h => h.1, fun h => ⟨h, h.distinct⟩⟩

/-- The registry takes a host name of seventy-four bytes; its four topics are all `atnode/`. -/
theorem long_hostname_topics_collapse :
    ¬ ∀ raw name : Text, validate .deviceHostname raw = .ok name →
      Exact name ∧ Distinct (Topics.new name) := by
  intro hall
  have h := hall (List.replicate 74 'a') _ rfl
  have hcmd := h.1.cmd
  revert hcmd
  decide

end AtNode.MqttTopics
