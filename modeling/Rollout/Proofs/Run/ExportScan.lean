import Rollout.Proofs.Cloud.Exports
import Rollout.Proofs.Run.Succeeding

/-!
One pass over the exports. A pass goes from page to page until it finds a name or there is no next
page, so what it finds is the first export of that name in the whole list, however the list is cut
into pages, and as there are no more pages than exports it comes to its end.
-/

namespace Rollout

open FileTree Outcome

namespace Lifecycle

variable {p : StackProvider} {t : FileTree} {name : String}

/-- A pass goes through the pages. -/
theorem scan_of_pages {token : Option String} {pages : List (List StackExport)}
    (h : Pages (p.exportPage t) token pages) {patience : Nat} (hpatience : pages.length ≤ patience) :
    scan p t name patience token =
      some (.ok ((pages.flatten.find? fun e => e.name = name).map StackExport.value)) := by
  induction h generalizing patience with
  | last hlast =>
    obtain ⟨patience, rfl⟩ : ∃ n, patience = n + 1 := ⟨patience - 1, by simp at hpatience; omega⟩
    rw [scan, StackProvider.listExports_of_exportPage hlast, List.flatten_singleton]
    dsimp only
    split
    · rename_i e he
      rw [he]
      rfl
    · rename_i he
      rw [he]
      rfl
  | more hmore _ ih =>
    rw [List.length_cons] at hpatience
    obtain ⟨patience, rfl⟩ : ∃ n, patience = n + 1 := ⟨patience - 1, by omega⟩
    rw [scan, StackProvider.listExports_of_exportPage hmore, List.flatten_cons, List.find?_append]
    dsimp only
    split
    · rename_i e he
      rw [he]
      rfl
    · rename_i he
      rw [he, ih (by omega), Option.none_or]

end Lifecycle

namespace StackProvider

variable {p : StackProvider} {t : FileTree} {all : List StackExport}

/-- A list as the exports of all stacks: its pages are the list, cut into pieces, and a pass finds
the first export of a name in it, if there is one, in any world with this disk. -/
structure Lists (p : StackProvider) (t : FileTree) (all : List StackExport) : Prop where
  pages : ∃ pages, Pages (p.exportPage t) none pages ∧ InPages p.pageSize.toNat all pages
  scans : ∀ (site : Site) (d : DiskWorld site) (s : d.State) (name : String) (patience : Nat),
    site.cloud.provider = p → d.files s = t → all.length < patience →
    ((Lifecycle.scanFrom name patience none).run d.handler s).1 =
      some (.ok ((all.find? fun e => e.name = name).map StackExport.value))

theorem lists_of_allExports (hsize : 0 < p.pageSize) (hall : p.allExports t = .ok all)
    (hcount : all.length < UInt64.size / 2) : p.Lists t all := by
  obtain ⟨pages, hpages, hin⟩ := exists_exportPages hsize hall hcount
  refine ⟨⟨pages, hpages, hin⟩, ?_⟩
  rintro site d s name patience rfl rfl hpatience
  have hlength := hin.length_le (UInt64.lt_iff_toNat_lt.1 hsize)
  rw [Lifecycle.run_scanFrom, Lifecycle.scan_of_pages hpages (by omega), hin.flatten]

/-- The exports of all stacks are listed in whole: with pages of whatever length, the pages are the
exports of the documents, these in the order of their names and the outputs of each in the order of
their keys, each export as its output declares it, and a pass over the pages ends with the first
export of a name. -/
theorem exports_listed (p : StackProvider) (t : FileTree) (h : p.Readable t) :
    ∃ docs, p.Documents t docs ∧
      (∀ name doc, (name, doc) ∈ docs → doc.outputs.Ordered ∧
        (∀ output e, Template.export? doc.buckets output = some e ↔
          Template.Declares doc.buckets output e) ∧
        doc.exports = doc.outputs.filterMap fun output => Template.export? doc.buckets output.2) ∧
      ∀ size, 0 < size →
        Lists { p with pageSize := size } t (docs.flatMap fun e => e.2.exports) := by
  obtain ⟨docs, hdocs, hall⟩ := h.exists_documents
  exact ⟨docs, hdocs,
    fun name doc hdoc => ⟨ordered_outputs_of_load ((hdocs.mem name doc).1 hdoc).2,
      fun _ _ => Template.export?_eq_some, doc.exports_eq⟩,
    fun size hsize =>
      lists_of_allExports hsize ((allExports_pageSize size).trans hall) (h.count _ hall)⟩

namespace Sample

/-- A stack that exports a value. -/
def exporting (name value : String) : String :=
  (Json.obj [("status", .str ""), ("template", .obj [("Outputs", .obj [("O", .obj
    [("Value", .str value), ("Export", .obj [("Name", .str name)])])])])]).compact

/-- A disk with two stacks that export values under one name. -/
def exports : FileTree where
  workDir := []
  locks := []
  entries := [(["cloud"], .dir), (["cloud", "stacks"], .dir),
    (["cloud", "stacks", "b.json"], .file (exporting "x" "2").toUTF8),
    (["cloud", "stacks", "a.json"], .file (exporting "x" "1").toUTF8)]

theorem allExports_exports :
    (provider.allExports exports).toOption = some [⟨"x", "1"⟩, ⟨"x", "2"⟩] := by
  decide +kernel

theorem readable_exports : provider.Readable exports :=
  readable_of_allExports (by decide) (ok_of_toOption allExports_exports) (by decide)

end Sample

/-- Two exports of one name, in pages of one. -/
theorem exports_listed_sample :
    Sample.provider.Readable Sample.exports ∧
      ∃ docs, Sample.provider.Documents Sample.exports docs ∧
        (docs.flatMap fun e => e.2.exports) = [⟨"x", "1"⟩, ⟨"x", "2"⟩] ∧
        Lists { Sample.provider with pageSize := 1 } Sample.exports [⟨"x", "1"⟩, ⟨"x", "2"⟩] := by
  obtain ⟨docs, hdocs, -, hlists⟩ :=
    exports_listed Sample.provider Sample.exports Sample.readable_exports
  obtain ⟨docs', hdocs', hall⟩ := Sample.readable_exports.exists_documents
  obtain rfl := hdocs.unique hdocs'
  have hexports : (docs.flatMap fun e => e.2.exports) = [⟨"x", "1"⟩, ⟨"x", "2"⟩] :=
    Except.ok.inj (hall.symm.trans (ok_of_toOption Sample.allExports_exports))
  exact ⟨Sample.readable_exports, docs, hdocs, hexports, hexports ▸ hlists 1 (by decide)⟩

end StackProvider

end Rollout
