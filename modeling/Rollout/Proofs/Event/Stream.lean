import Mathlib.Logic.Function.Basic
import Rollout.Event.Json
import Rollout.Proofs.Json.Compact
import Rollout.Proofs.Text.Joined

/-!
What the event stream keeps. The texts of an event may hold line breaks and quotes, yet each
event makes one line; the line is an object, and what it says beside the time gives the event
back: its kind by the member `event`, and the fields of that kind by their names.
-/

namespace Rollout

namespace TextMap

variable {α : Type}

theorem erase_insert {k : String} {m : TextMap α} (h : get? k m = none) (v : α) :
    erase k (insert k v m) = m := by
  induction m with
  | nil => simp [insert, erase]
  | cons e m ih =>
    obtain ⟨k', v'⟩ := e
    rw [get?_cons] at h
    have hne : k' ≠ k := by
      rintro rfl
      simp at h
    rw [if_neg hne] at h
    rw [insert, if_neg hne]
    split
    · rw [← erase_of_get?_eq_none (k := k) (m := (k', v') :: m) (by rw [get?_cons, if_neg hne, h])]
      simp [erase]
    · rw [erase, List.filter_cons_of_pos (by simpa using hne)]
      exact congrArg _ (ih h)

end TextMap

namespace Event

/-! ## Events from objects -/

variable {e : Event} {time : String} {events : List (String × Event)}

/-- The text of a member. -/
def text? (members : TextMap Json) (name : String) : Option String :=
  (members.get? name).bind Json.str?

/-- The count of a member. -/
def count? (members : TextMap Json) (name : String) : Option Nat :=
  match members.get? name with
  | some (.number (.int n)) => some n.toNat
  | _ => none

/-- The event that the members of an object encode. -/
def ofMembers? (m : TextMap Json) : Option Event := do
  match ← text? m "event" with
  | "start" => return started (← text? m "command") (← text? m "stack") (← text? m "stage")
  | "stack_creating" => return stackCreating (← text? m "stack")
  | "stack_exists" => return stackExists (← text? m "stack")
  | "stack_ready" => return stackReady (← text? m "stack") (← text? m "status")
  | "bucket_resolved" => return bucketResolved (← text? m "bucket")
  | "plan" =>
    return planComputed ((← text? m "mode") = "incremental") (← count? m "to_deploy")
      (← count? m "total")
  | "artifact_uploaded" =>
    return artifactUploaded (← count? m "index") (← count? m "total") (← text? m "key")
  | "template_uploaded" => return templateUploaded (← text? m "url")
  | "stack_updating" => return stackUpdating (← text? m "stack")
  | "stack_unchanged" => return stackUnchanged (← text? m "stack")
  | "record_committed" => return recordCommitted (← text? m "timestamp")
  | "export_resolved" => return exportResolved (← text? m "name") (← text? m "value")
  | "export_unavailable" => return exportUnavailable (← text? m "name")
  | "file_uploaded" => return fileUploaded (← text? m "bucket") (← text? m "key")
  | "hook_succeeded" => return hookSucceeded (← text? m "name")
  | "hook_failed" => return hookFailed (← text? m "name") (← text? m "error")
  | "bucket_emptied" => return bucketEmptied (← text? m "bucket") (← count? m "removed")
  | "stack_deleted" => return stackDeleted (← text? m "stack")
  | "complete" =>
    return completed (← text? m "command") (← count? m "uploaded") (← count? m "reused")
      (← count? m "warnings")
  | _ => none

/-- The event that a line of the stream encodes. -/
def ofLine? (line : String) : Option Event :=
  ((Json.parse? line).bind Json.members?).bind ofMembers?

/-- An event is found again in its fields. -/
theorem ofMembers?_fields (e : Event) : ofMembers? (TextMap.ofList e.fields) = some e := by
  cases e <;>
    simp [fields, ofMembers?, text?, count?, TextMap.ofList, TextMap.get?_insert, Json.str?,
      Json.nat, Json.int]

/-- No field of an event is called like its time. -/
theorem get?_ts_fields (e : Event) : TextMap.get? "ts" (TextMap.ofList e.fields) = none := by
  cases e <;> simp [fields, TextMap.ofList, TextMap.get?_insert]

theorem text?_erase {name key : String} (h : key ≠ name) (m : TextMap Json) :
    text? (m.erase key) name = text? m name := by
  rw [text?, TextMap.get?_erase, if_neg h, text?]

theorem count?_erase {name key : String} (h : key ≠ name) (m : TextMap Json) :
    count? (m.erase key) name = count? m name := by
  rw [count?, TextMap.get?_erase, if_neg h, count?]

/-- The time of an event says nothing about which event it is. -/
theorem ofMembers?_erase (m : TextMap Json) : ofMembers? (m.erase "ts") = ofMembers? m := by
  simp [ofMembers?, text?_erase, count?_erase]

theorem toJson_injective : Function.Injective toJson := by
  intro e e' h
  have hmembers : TextMap.ofList e.fields = TextMap.ofList e'.fields := Json.obj.inj h
  have hread := ofMembers?_fields e
  rw [hmembers, ofMembers?_fields] at hread
  exact (Option.some.inj hread).symm

/-! ## Lines -/

/-- A value that a field may have: a text, or a count that fits a machine word. -/
inductive IsField : Json → Prop
  | text (s : String) : IsField (.str s)
  | count {n : Nat} (h : n < UInt64.size) : IsField (.nat n)

theorem IsField.integersOnly {v : Json} (h : IsField v) : v.integersOnly = true := by
  cases h <;> rfl

theorem IsField.canonical {v : Json} (h : IsField v) : v.Canonical := by
  cases h with
  | text s => trivial
  | count h => exact ⟨by omega, by exact_mod_cast h⟩

theorem IsField.nesting {v : Json} (h : IsField v) : v.nesting = 0 := by
  cases h <;> rfl

section Flat

variable {m : TextMap Json}

theorem integersOnly_obj (hfields : ∀ f ∈ m, IsField f.2) : (Json.obj m).integersOnly = true :=
  Json.integersOnlyMembers_iff.2 fun f hf => (hfields f hf).integersOnly

/-- An object of such fields is read back from its line. -/
theorem parse?_compact_obj (ho : m.Ordered) (hfields : ∀ f ∈ m, IsField f.2) :
    Json.parse? (Json.obj m).compact = some (.obj m) := by
  refine Json.parse?_compact_of_nesting (integersOnly_obj hfields) ⟨ho, ?_⟩ ?_
  · exact Json.canonicalMembers_iff.2 fun f hf => (hfields f hf).canonical
  · have hdepth : Json.nestingMembers m ≤ 0 :=
      Json.nestingMembers_le.2 fun f hf => (hfields f hf).nesting.le
    exact Nat.le_trans (Nat.succ_le_succ hdepth) (by decide)

end Flat

/-- The counts of an event fit a machine word. -/
def Counted : Event → Prop
  | planComputed _ toDeploy total => toDeploy < UInt64.size ∧ total < UInt64.size
  | artifactUploaded index total _ => index < UInt64.size ∧ total < UInt64.size
  | bucketEmptied _ removed => removed < UInt64.size
  | completed _ uploaded reused warnings =>
    uploaded < UInt64.size ∧ reused < UInt64.size ∧ warnings < UInt64.size
  | _ => True

theorem isField_of_mem_fields (h : e.Counted) : ∀ f ∈ e.fields, IsField f.2 := by
  cases e <;> simp only [Counted] at h <;> simp [fields, IsField.text, IsField.count, h]

/-- The members of the object that a line holds. -/
def members (time : String) (e : Event) : TextMap Json :=
  (TextMap.ofList e.fields).insert "ts" (.str time)

theorem stamped_eq (time : String) (e : Event) : e.stamped time = .obj (e.members time) := by
  simp [stamped, Json.object, members, TextMap.ofList]

theorem ordered_members (time : String) (e : Event) : (e.members time).Ordered :=
  (TextMap.ordered_ofList _).insert _ _

theorem isField_of_mem_members (h : e.Counted) : ∀ f ∈ e.members time, IsField f.2 := by
  intro f hf
  rcases TextMap.mem_insert hf with rfl | hf
  · exact .text time
  · exact isField_of_mem_fields h f (TextMap.mem_of_mem_ofList hf)

@[simp] theorem get?_ts_members (time : String) (e : Event) :
    (e.members time).get? "ts" = some (.str time) :=
  TextMap.get?_insert_self ..

/-- Without the time, a line says what the event is. -/
theorem obj_erase_members (time : String) (e : Event) :
    Json.obj ((e.members time).erase "ts") = e.toJson := by
  rw [members, TextMap.erase_insert (get?_ts_fields e)]
  rfl

theorem ofMembers?_members (time : String) (e : Event) : ofMembers? (e.members time) = some e := by
  rw [← ofMembers?_erase, members, TextMap.erase_insert (get?_ts_fields e), ofMembers?_fields]

/-- What a line of the stream says: when something happened, and what. -/
structure Tells (line : String) (entry : String × Event) : Prop where
  /-- The line is an object, and holds the time. -/
  object : ∃ m : TextMap Json, Json.parse? line = some (.obj m) ∧
    m.get? "ts" = some (.str entry.1) ∧ .obj (m.erase "ts") = entry.2.toJson
  /-- The event can be recovered. -/
  recovered : ofLine? line = some entry.2

theorem tells_compact (h : e.Counted) (time : String) :
    Tells (e.stamped time).compact (time, e) := by
  have hparse := parse?_compact_obj (ordered_members time e) (isField_of_mem_members h)
  rw [← stamped_eq] at hparse
  constructor
  · exact ⟨_, by rw [hparse, stamped_eq], get?_ts_members time e, obj_erase_members time e⟩
  · rw [ofLine?, hparse, stamped_eq]
    exact ofMembers?_members time e

/-! ## The stream -/

/-- A line is cut off at its end, and nowhere else. -/
theorem split_stream_cons (h : e.Counted) (time : String) (events : List (String × Event)) :
    Text.splitString '\n' (stream ((time, e) :: events)) =
      (e.stamped time).compact :: Text.splitString '\n' (stream events) := by
  have hline : '\n' ∉ (e.stamped time).compact.toList := by
    rw [stamped_eq]
    exact Json.newLine_notMem_compact (integersOnly_obj (isField_of_mem_members h))
  have hstream : (stream ((time, e) :: events)).toList =
      (e.stamped time).compact.toList ++ '\n' :: (stream events).toList := by
    simp [stream, line]
  rw [Text.splitString, hstream, Text.split_append_cons hline, List.map_cons,
    String.ofList_toList, Text.splitString]

/-- A stream loses nothing: cut at its line breaks it is one line for each event, in the order of
the events, and nothing behind the last of them; each line is an object that holds the time, and
its event can be recovered from it; and beside the time, no two events are written alike. -/
theorem stream_lossless (events : List (String × Event)) (h : ∀ p ∈ events, p.2.Counted) :
    (∃ lines, Text.splitString '\n' (stream events) = lines ++ [""] ∧
      List.Forall₂ Tells lines events) ∧ Function.Injective toJson := by
  refine ⟨?_, toJson_injective⟩
  induction events with
  | nil => exact ⟨[], rfl, .nil⟩
  | cons entry events ih =>
    obtain ⟨time, e⟩ := entry
    have he : e.Counted := h _ List.mem_cons_self
    obtain ⟨lines, hsplit, htell⟩ := ih fun p hp => h p (List.mem_cons_of_mem _ hp)
    refine ⟨(e.stamped time).compact :: lines, ?_, .cons (tells_compact he time) htell⟩
    rw [split_stream_cons he, hsplit, List.cons_append]

/-- Two events with the same texts but of different kinds, and one with line breaks and quotes. -/
theorem stream_lossless_sample :
    let events := [("2024-01-01T00:00:00.000Z", .stackCreating "a\n\"b\""),
      ("2024-01-01T00:00:00.001Z", .stackExists "a\n\"b\""),
      ("2024-01-01T00:00:00.002Z", .completed "deploy" 1 2 0)]
    (∀ p ∈ events, p.2.Counted) ∧
      (∃ lines, Text.splitString '\n' (stream events) = lines ++ [""] ∧
        List.Forall₂ Tells lines events) ∧ Function.Injective toJson := by
  intro events
  have hcounted : ∀ p ∈ events, p.2.Counted := by
    simp [events, Counted, UInt64.size]
  exact ⟨hcounted, stream_lossless events hcounted⟩

end Event

end Rollout
