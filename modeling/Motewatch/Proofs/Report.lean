import Motewatch.Report.Json
import Motewatch.Proofs.Json.Record
import Motewatch.Proofs.Json.Value

/-!
# Reports are read back

Both layouts of a report are records of counts, doubles and lists, which are read back field by
field. In the full layout the reports on links hold arbitrary values, five levels below the whole,
so the depth of the whole bounds theirs.

## Main definitions

* `NodeTally.Sound`, `Report.Sound` — what texts of reports can hold.

## Main results

* `reads_node`, `reads_report`, `reads_flatReport` — the records, in any spacing.
* `Report.parse_render` — a rendered report is read back.
-/

namespace Motewatch
open Json (Reads Fills Spacing ReadsBack)

variable {spacing : Spacing}

/-! ## What a report can hold -/

/-- Counts that fit words, and reports on links that can stand in a text. -/
structure NodeTally.Sound (n : NodeTally) : Prop where
  id : n.id < wordLimit
  transmitted : n.transmitted < wordLimit
  received : n.received < wordLimit
  timeouts : n.timeouts < wordLimit
  links : ∀ link ∈ n.links.entries, ∀ field ∈ link.2.entries, field.2.Sound

/-- A report whose numbers fit words and whose doubles are read back. -/
structure Report.Sound (r : Report) : Prop where
  firstSchedule : ∀ t ∈ r.firstSchedule, t < wordLimit
  nodes : ∀ n ∈ r.nodes, n.Sound
  duration : ReadsBack r.duration
  speed : ReadsBack r.speed
  total : r.total < wordLimit
  completed : r.completed < wordLimit

section
variable (hs : spacing.IsBlank)

/-! ## Nodes -/

include hs in
theorem reads_links {links : Catalog (Catalog Json.Value)}
    (h : ∀ link ∈ links.entries, ∀ field ∈ link.2.entries, field.2.Sound)
    (hdepth : (linksToJson links).depth + 3 ≤ Json.maxDepth) :
    Reads spacing linksReader (linksToJson links) links := by
  refine Json.reads_catalog hs (f := fun fields : Catalog Json.Value => .object fields.entries)
    fun link hlink => ?_
  have hlink' : (Json.Value.object link.2.entries).depth < (linksToJson links).depth :=
    Json.depth_lt_of_mem_object (m := (link.1, .object link.2.entries)) (List.mem_map_of_mem hlink)
  have hfield (field : String × Json.Value) (hfield : field ∈ link.2.entries) :
      Reads spacing (Json.value (Json.maxDepth - 5)) field.2 field.2 := by
    refine Json.reads_value hs (h link hlink field hfield) ?_
    have hlt := Json.depth_lt_of_mem_object hfield
    omega
  simpa using Json.reads_catalog hs (f := id) hfield

include hs in
theorem reads_node {n : NodeTally} (hn : n.Sound) (hdepth : n.toJson.depth + 2 ≤ Json.maxDepth) :
    Reads spacing NodeTally.shape.read n.toJson n := by
  refine Json.reads_record hs (by decide) ?_
  have hlinks : (linksToJson n.links).depth < n.toJson.depth :=
    Json.depth_lt_of_mem_object (m := ("neighborLinkStats", linksToJson n.links)) (by simp)
  exact .of (Json.reads_natural hn.id) <| .of (Json.reads_natural hn.transmitted) <|
    .of (Json.reads_natural hn.received) <| .of (Json.reads_natural hn.timeouts) <|
    .of (reads_links hs hn.links (by omega)) (.nil n)

/-! ## Reports -/

include hs in
theorem reads_report {r : Report} (hr : r.Sound) (hdepth : r.toJson.depth ≤ Json.maxDepth) :
    Reads spacing Report.shape.read r.toJson r := by
  refine Json.reads_record hs (by decide) ?_
  have hnodes : (Json.Value.array (r.nodes.map NodeTally.toJson)).depth < r.toJson.depth :=
    Json.depth_lt_of_mem_object (m := ("perNodeStats", .array (r.nodes.map NodeTally.toJson)))
      (by simp)
  have hnode (n : NodeTally) (hn : n ∈ r.nodes) :
      Reads spacing NodeTally.shape.read n.toJson n := by
    have hlt := Json.depth_lt_of_mem_array (List.mem_map_of_mem (f := NodeTally.toJson) hn)
    exact reads_node hs (hr.nodes n hn) (by omega)
  exact .of (Json.reads_natural? r.firstSchedule hr.firstSchedule) <|
    .of (Json.reads_array hs hnode) <|
    .of (Json.reads_double hr.duration) <| .of (Json.reads_double hr.speed) <|
    .of (Json.reads_natural hr.total) <| .of (Json.reads_natural hr.completed) <|
    .of (Json.reads_flag r.timedOut) (.nil r)

include hs in
theorem reads_counts {counts : List Nat} (h : ∀ n ∈ counts, n < wordLimit) :
    Reads spacing (Json.array Json.natural) (countsToJson counts) counts :=
  Json.reads_array hs fun n hn => Json.reads_natural (h n hn)

include hs in
theorem reads_flatReport {r : Report} (hr : r.Sound) :
    Reads spacing FlatReport.shape.read r.flatten.toJson r.flatten := by
  have hfirst : r.flatten.firstSchedule < wordLimit := by
    rw [Report.flatten]
    cases h : r.firstSchedule with
    | none => exact wordLimit_pos
    | some n => exact hr.firstSchedule n h
  refine Json.reads_record hs (by decide) ?_
  exact .of (Json.reads_natural hfirst) <|
    .of (reads_counts hs (List.forall_mem_map.2 fun n hn => (hr.nodes n hn).transmitted)) <|
    .of (reads_counts hs (List.forall_mem_map.2 fun n hn => (hr.nodes n hn).received)) <|
    .of (reads_counts hs (List.forall_mem_map.2 fun n hn => (hr.nodes n hn).timeouts)) <|
    .of (Json.reads_double hr.duration) <| .of (Json.reads_double hr.speed) (.nil r.flatten)

end

/-- **A rendered report is read back**, with or without the end of the line after it. -/
theorem Report.parse_render (r : Report) (hr : r.Sound)
    (hdepth : r.toJson.depth ≤ Json.maxDepth) :
    Report.parse (r.render .full) = .ok r ∧
      Report.parse (r.render .full ++ "\n") = .ok r ∧
      FlatReport.parse (r.render .flat) = .ok r.flatten ∧
      FlatReport.parse (r.render .flat ++ "\n") = .ok r.flatten := by
  have hfull := reads_report Json.isBlank_indented hr hdepth
  have hflat := reads_flatReport Json.isBlank_indented hr
  exact ⟨Json.parse_indentedText hfull, Json.parse_indentedText_append hfull (by decide),
    Json.parse_indentedText hflat, Json.parse_indentedText_append hflat (by decide)⟩

/-- A report with the largest count, an odd name for a neighbour, and values of every kind. -/
def Report.sample : Report where
  firstSchedule := some (wordLimit - 1)
  nodes := [⟨1, wordLimit - 1, 0, 2, ⟨[("\x01\"é\n", ⟨[
    ("etx", .array [.int (-0x8000000000000000), .double 2.5, .null, .array []]),
    ("more", .object [("on", .bool true), ("text", .text "\\")])], by decide⟩)], by simp⟩⟩]
  duration := 0.25
  speed := 1e21
  total := 2
  completed := 1
  timedOut := true

theorem Report.sound_sample : Report.sample.Sound where
  firstSchedule := by decide
  nodes := by
    have hitems : ∀ v ∈ [Json.Value.int (-0x8000000000000000), .double 2.5, .null, .array []],
        v.Sound := by
      simp only [List.forall_mem_cons]
      exact ⟨.int (by decide), .double (by decide +kernel), .null,
        .array (by simp), by simp⟩
    have hmembers : ∀ m ∈ [("on", Json.Value.bool true), ("text", .text "\\")], m.2.Sound := by
      simp only [List.forall_mem_cons]
      exact ⟨.bool true, .text "\\", by simp⟩
    simp only [sample, List.forall_mem_cons]
    refine ⟨⟨by decide, by decide, by decide, by decide, ?_⟩, by simp⟩
    simp only [List.forall_mem_cons]
    exact ⟨⟨.array hitems, .object (by decide) hmembers, by simp⟩, by simp⟩
  duration := by decide +kernel
  speed := by decide +kernel
  total := by decide
  completed := by decide

theorem Report.parse_render_sample :
    Report.sample.Sound ∧ Report.sample.toJson.depth ≤ Json.maxDepth ∧
      Report.parse (Report.sample.render .full) = .ok Report.sample ∧
      Report.parse (Report.sample.render .full ++ "\n") = .ok Report.sample ∧
      FlatReport.parse (Report.sample.render .flat) = .ok Report.sample.flatten ∧
      FlatReport.parse (Report.sample.render .flat ++ "\n") = .ok Report.sample.flatten :=
  have hdepth : Report.sample.toJson.depth ≤ Json.maxDepth := by decide
  ⟨Report.sound_sample, hdepth, Report.parse_render Report.sample Report.sound_sample hdepth⟩

end Motewatch
