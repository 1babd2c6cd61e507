import Rollout.Cloud.StackProvider
import Rollout.Proofs.Json.Fields
import Rollout.Proofs.Json.Nesting

/-!
Stack documents. The document of a stack lies one level around its template, so it is read back
exactly if the template nests one level less deep than a reader goes; then its status and its
buckets are what they were, and so is a template whose numbers are integers.
-/

namespace Rollout.StackDoc

open Json

variable {d d' : StackDoc} {text : String}

/-- What makes a stack document of a document. -/
theorem ofWritten?_eq_some {w : Written} (h : ofWritten? w = some d) :
    ∃ status template buckets,
      w.fields? ["status", "template", "buckets"] = some [status, template, buckets] ∧
        required Written.text? status = some d.status ∧
        required (Written.value? (nestingLimit - 1)) template = some d.template ∧
        defaulted (Written.map? Written.text?) [] buckets = some d.buckets := by
  unfold ofWritten? at h
  split at h
  · rename_i status template buckets hfields
    simp only [Option.bind_eq_bind, Option.bind_eq_some_iff, Option.pure_def,
      Option.some.injEq] at h
    obtain ⟨s, hs, t, ht, b, hb, rfl⟩ := h
    exact ⟨status, template, buckets, hfields, hs, ht, hb⟩
  · cases h

/-- What is read of a stack document is what was written, but that the template is read anew. -/
theorem parse?_toJson (hb : d.buckets.Ordered) : parse? d.toJson.pretty =
    (Written.value? (nestingLimit - 1) d.template.written).map fun template =>
      { d with template } := by
  have hmap := map?_written text?_written hb
  rw [parse?, parse?_pretty, Option.bind_some, toJson, ofWritten?, fields?_written]
  simp [fieldOf?, required, defaulted, hmap]
  cases Written.value? (nestingLimit - 1) d.template.written <;> rfl

/-- Status and buckets are read back. -/
theorem status_of_parse?_toJson (hb : d.buckets.Ordered) (h : parse? d.toJson.pretty = some d') :
    d'.status = d.status ∧ d'.buckets = d.buckets := by
  rw [parse?_toJson hb, Option.map_eq_some_iff] at h
  obtain ⟨template, -, rfl⟩ := h
  exact ⟨rfl, rfl⟩

/-- A template whose numbers are integers is read back. -/
theorem template_of_parse?_toJson (hb : d.buckets.Ordered) (hi : d.template.integersOnly = true)
    (hc : d.template.Canonical) (h : parse? d.toJson.pretty = some d') :
    d'.template = d.template := by
  rw [parse?_toJson hb, Option.map_eq_some_iff] at h
  obtain ⟨template, htemplate, rfl⟩ := h
  exact eq_of_value?_written hi hc htemplate

/-- A stack is read back only if its template leaves a level of nesting for its document. -/
theorem nesting_of_parse?_toJson (hb : d.buckets.Ordered) (h : parse? d.toJson.pretty = some d') :
    d.template.nesting < nestingLimit := by
  rw [parse?_toJson hb, Option.map_eq_some_iff] at h
  obtain ⟨template, htemplate, -⟩ := h
  exact Nat.lt_of_le_sub_one (by decide) (nesting_le_of_value?_written htemplate)

/-- The text of a stack document tells its buckets. -/
theorem buckets_of_pretty_eq (hb : d.buckets.Ordered) (hb' : d'.buckets.Ordered)
    (h : d.toJson.pretty = d'.toJson.pretty) : d.buckets = d'.buckets := by
  have hwritten : d.toJson.written = d'.toJson.written := by
    have hparse := parse?_pretty d.toJson
    rw [h, parse?_pretty] at hparse
    exact (Option.some.inj hparse).symm
  rw [toJson, toJson] at hwritten
  have hmap := map?_written text?_written hb
  have hmap' := map?_written text?_written hb'
  simp only [written, writtenMembers, Written.obj.injEq, List.cons.injEq, Prod.mk.injEq] at hwritten
  rw [written, hwritten.2.2.1.2, ← written, hmap'] at hmap
  exact (Option.some.inj hmap).symm

/-- What was read has the form of a reader's. -/
theorem canonical_of_parse? (h : parse? text = some d) :
    d.template.Canonical ∧ d.buckets.Ordered := by
  obtain ⟨w, -, h⟩ := Option.bind_eq_some_iff.1 h
  obtain ⟨status, template, buckets, -, -, htemplate, hbuckets⟩ := ofWritten?_eq_some h
  constructor
  · cases template with
    | none => cases htemplate
    | some template => exact canonical_of_value? htemplate
  · cases buckets with
    | none =>
      rw [← Option.some.inj hbuckets]
      exact TextMap.Ordered.nil
    | some buckets => exact ordered_of_map? hbuckets

theorem nesting_of_parse? (h : parse? text = some d) : d.template.nesting < nestingLimit := by
  obtain ⟨w, -, h⟩ := Option.bind_eq_some_iff.1 h
  obtain ⟨status, template, buckets, -, -, htemplate, -⟩ := ofWritten?_eq_some h
  cases template with
  | none => cases htemplate
  | some template => exact Nat.lt_of_le_sub_one (by decide) (nesting_le_of_value? htemplate)

end Rollout.StackDoc
