import Motewatch.Proofs.Json.Object
import Motewatch.Proofs.Settings.Validation

/-!
# Settings that are given in part

Settings are read from an object that has some of them, in any order and with anything else between
them. Those that are given stand in the place of the standard ones, and among the markers likewise.
Nothing else counts: neither the order of the members nor the spelling of their keys, neither blanks
nor members that are no settings, and a number of nodes or a change of speed may as well be given as
`null`.

## Main definitions

* `Markers.Given`, `Settings.Given` — what is given, and what becomes of settings by it.
* `Markers.Given.In`, `Settings.Given.In` — the members of an object give this and no more.

## Main results

* `Markers.accepts_object`, `Settings.accepts_object` — what an object is read as.
* `Settings.parse_object` — what a text is read as, and what does not count.
-/

namespace Motewatch
open Json (Member IsObject IsNull IsNumber IsQuoted AtMostOne Accepts Blank Derives blank_nil
  valuesOf)

attribute [ext] Markers Settings

variable {ms : List Member} {s : List Char}

/-! ## Markers -/

/-- The markers that are given. -/
structure Markers.Given where
  completion : Option String
  scheduleUpdate : Option String
  receive : Option String
  transmit : Option String
  timeout : Option String
  topology : Option (List String)
  neighborLink : Option String

namespace Markers.Given

/-- Markers with those that are given in their place. -/
def override (g : Given) (m : Markers) : Markers where
  completion := g.completion.getD m.completion
  scheduleUpdate := g.scheduleUpdate.getD m.scheduleUpdate
  receive := g.receive.getD m.receive
  transmit := g.transmit.getD m.transmit
  timeout := g.timeout.getD m.timeout
  topology := g.topology.getD m.topology
  neighborLink := g.neighborLink.getD m.neighborLink

/-- The members of an object give these markers and no others. What is no marker may have any
value. -/
structure In (g : Given) (ms : List Member) : Prop where
  completion : AtMostOne (Accepts Json.text) (valuesOf "completion" ms) g.completion
  scheduleUpdate : AtMostOne (Accepts Json.text) (valuesOf "schedule_update" ms) g.scheduleUpdate
  receive : AtMostOne (Accepts Json.text) (valuesOf "receive" ms) g.receive
  transmit : AtMostOne (Accepts Json.text) (valuesOf "transmit" ms) g.transmit
  timeout : AtMostOne (Accepts Json.text) (valuesOf "timeout" ms) g.timeout
  topology : AtMostOne (Accepts (Json.array Json.text)) (valuesOf "topology" ms) g.topology
  neighborLink : AtMostOne (Accepts Json.text) (valuesOf "neighbor_link" ms) g.neighborLink
  other : ∀ m ∈ ms, m.key ∉ Markers.shape.names → Derives .element m.value

end Markers.Given

theorem Markers.isLocal_shape : Markers.shape.IsLocal := by
  have htext := Json.local_text
  have htexts := Json.local_array Json.local_text
  simp [Json.Shape.IsLocal, Markers.shape, Json.local_fieldOf, htext, htexts]

/-- Markers are read from an object as the standard ones with those that are given in their place. -/
theorem Markers.accepts_object {g : Markers.Given} (h : g.In ms) (hs : IsObject ms s) :
    Accepts Markers.shape.read s (g.override .standard) := by
  have hfields : ∀ field ∈ Markers.shape.fields, field.IsGiven (valuesOf field.name ms) := by
    simp only [Markers.shape, List.forall_mem_cons, List.not_mem_nil]
    exact ⟨h.completion.isGiven, h.scheduleUpdate.isGiven, h.receive.isGiven, h.transmit.isGiven,
      h.timeout.isGiven, h.topology.isGiven, h.neighborLink.isGiven, nofun⟩
  obtain ⟨p, hp⟩ := Json.exists_turns (p := ⟨Markers.shape.start, []⟩) hfields h.other (by simp)
  have hrecord : p.record = g.override .standard := by
    refine Markers.ext ?_ ?_ ?_ ?_ ?_ ?_ ?_
    · exact hp.get_record rfl (fun _ _ => rfl) (by simp [shape]) h.completion
    · exact hp.get_record rfl (fun _ _ => rfl) (by simp [shape]) h.scheduleUpdate
    · exact hp.get_record rfl (fun _ _ => rfl) (by simp [shape]) h.receive
    · exact hp.get_record rfl (fun _ _ => rfl) (by simp [shape]) h.transmit
    · exact hp.get_record rfl (fun _ _ => rfl) (by simp [shape]) h.timeout
    · exact hp.get_record rfl (fun _ _ => rfl) (by simp [shape]) h.topology
    · exact hp.get_record rfl (fun _ _ => rfl) (by simp [shape]) h.neighborLink
  rw [← hrecord]
  exact Json.accepts_record hs hp Markers.isLocal_shape (by simp [shape])

/-! ## Settings -/

/-- The settings that are given. Two of them may be given as absent. -/
structure Settings.Given where
  totalNodes : Option (Option Nat)
  speed : Option Float
  timeoutMillis : Option Nat
  markers : Option Markers.Given
  speedChange : Option (Option SpeedChange)
  outputDir : Option String
  format : Option Report.Format

namespace Settings.Given

/-- Settings with those that are given in their place. Markers that are given stand in the place of
standard ones. -/
def override (g : Given) (s : Settings) : Settings where
  totalNodes := g.totalNodes.getD s.totalNodes
  speed := g.speed.getD s.speed
  timeoutMillis := g.timeoutMillis.getD s.timeoutMillis
  markers := (g.markers.map (·.override .standard)).getD s.markers
  speedChange := g.speedChange.getD s.speedChange
  outputDir := g.outputDir.getD s.outputDir
  format := g.format.getD s.format

/-- The members of an object give these settings and no others. What is no setting may have any
value. -/
structure In (g : Given) (ms : List Member) : Prop where
  totalNodes : AtMostOne (Accepts (Json.optional Json.natural)) (valuesOf "total_nodes" ms)
    g.totalNodes
  speed : AtMostOne (Accepts Json.double) (valuesOf "speed_limit" ms) g.speed
  timeoutMillis : AtMostOne (Accepts Json.natural) (valuesOf "timeout_ms" ms) g.timeoutMillis
  markers : AtMostOne (fun s given => ∃ ms', IsObject ms' s ∧ given.In ms') (valuesOf "markers" ms)
    g.markers
  speedChange : AtMostOne (Accepts (Json.optional SpeedChange.shape.read))
    (valuesOf "speed_change" ms) g.speedChange
  outputDir : AtMostOne (Accepts Json.text) (valuesOf "output_dir" ms) g.outputDir
  format : AtMostOne (Accepts (Json.choice Settings.formatNames)) (valuesOf "report_format" ms)
    g.format
  other : ∀ m ∈ ms, m.key ∉ Settings.shape.names → Derives .element m.value

/-- Only the members with settings count, and their order does not. -/
theorem In.perm {g : Given} {ms ms' : List Member} (h : g.In ms)
    (hperm : (ms'.filter (·.key ∈ Settings.shape.names)).Perm
      (ms.filter (·.key ∈ Settings.shape.names)))
    (hother : ∀ m ∈ ms', m.key ∉ Settings.shape.names → Derives .element m.value) : g.In ms' where
  totalNodes := h.totalNodes.perm (Json.perm_valuesOf hperm (by decide))
  speed := h.speed.perm (Json.perm_valuesOf hperm (by decide))
  timeoutMillis := h.timeoutMillis.perm (Json.perm_valuesOf hperm (by decide))
  markers := h.markers.perm (Json.perm_valuesOf hperm (by decide))
  speedChange := h.speedChange.perm (Json.perm_valuesOf hperm (by decide))
  outputDir := h.outputDir.perm (Json.perm_valuesOf hperm (by decide))
  format := h.format.perm (Json.perm_valuesOf hperm (by decide))
  other := hother

/-- What is not set may also be given as `null`. -/
theorem In.cons_null {g : Given} {ms : List Member} {m : Member} (h : g.In ms)
    (hkey : m.key = "total_nodes" ∨ m.key = "speed_change") (hnull : IsNull m.value)
    (hnew : valuesOf m.key ms = []) :
    ∃ g' : Given, g'.In (m :: ms) ∧ g'.override .standard = g.override .standard := by
  have hvalue : valuesOf m.key (m :: ms) = [m.value] := by rw [Json.valuesOf_cons_self, hnew]
  have hother : ∀ m' ∈ m :: ms, m'.key ∉ Settings.shape.names → Derives .element m'.value := by
    refine List.forall_mem_cons.2 ⟨fun hm => absurd ?_ hm, h.other⟩
    rcases hkey with hkey | hkey <;> rw [hkey] <;> decide
  have hne {key key' : String} (hkey : m.key = key) (hne : key ≠ key') : m.key ≠ key' := by
    rwa [hkey]
  rcases hkey with hkey | hkey <;> rw [hkey] at hvalue hnew
  · have hnone : g.totalNodes = none := (hnew ▸ h.totalNodes).eq_none
    refine ⟨{ g with totalNodes := some none }, ?_, by rw [override, override, hnone]; rfl⟩
    exact {
      totalNodes := hvalue ▸ .present (hnull.accepts _)
      speed := h.speed.cons_of_ne (hne hkey (by decide))
      timeoutMillis := h.timeoutMillis.cons_of_ne (hne hkey (by decide))
      markers := h.markers.cons_of_ne (hne hkey (by decide))
      speedChange := h.speedChange.cons_of_ne (hne hkey (by decide))
      outputDir := h.outputDir.cons_of_ne (hne hkey (by decide))
      format := h.format.cons_of_ne (hne hkey (by decide))
      other := hother }
  · have hnone : g.speedChange = none := (hnew ▸ h.speedChange).eq_none
    refine ⟨{ g with speedChange := some none }, ?_, by rw [override, override, hnone]; rfl⟩
    exact {
      totalNodes := h.totalNodes.cons_of_ne (hne hkey (by decide))
      speed := h.speed.cons_of_ne (hne hkey (by decide))
      timeoutMillis := h.timeoutMillis.cons_of_ne (hne hkey (by decide))
      markers := h.markers.cons_of_ne (hne hkey (by decide))
      speedChange := hvalue ▸ .present (hnull.accepts _)
      outputDir := h.outputDir.cons_of_ne (hne hkey (by decide))
      format := h.format.cons_of_ne (hne hkey (by decide))
      other := hother }

end Settings.Given

theorem SpeedChange.isLocal_shape : SpeedChange.shape.IsLocal := by
  have hspeed := Json.local_double
  have htrigger := Json.local_choice Trigger.names
  simp [Json.Shape.IsLocal, SpeedChange.shape, Json.local_fieldOf, hspeed, htrigger]

theorem Settings.isLocal_shape : Settings.shape.IsLocal := by
  have hnodes : Json.Local (Json.optional Json.natural) :=
    Json.local_optional Json.local_natural nofun
  have hmarkers : Json.Local Markers.shape.read := Json.local_record Markers.isLocal_shape
  have hchange : Json.Local (Json.optional SpeedChange.shape.read) :=
    Json.local_optional (Json.local_record SpeedChange.isLocal_shape) nofun
  have hformat := Json.local_choice formatNames
  simp [Json.Shape.IsLocal, shape, Json.local_fieldOf, hnodes, Json.local_double,
    Json.local_natural, hmarkers, hchange, Json.local_text, hformat]

/-- Settings are read from an object as the standard ones with those that are given in their
place. -/
theorem Settings.accepts_object {g : Settings.Given} (h : g.In ms) (hs : IsObject ms s) :
    Accepts Settings.shape.read s (g.override .standard) := by
  have hmarkers : AtMostOne (Accepts Markers.shape.read) (valuesOf "markers" ms)
      (g.markers.map (·.override .standard)) := by
    refine h.markers.map ?_
    rintro s given ⟨ms', hs', hgiven⟩
    exact Markers.accepts_object hgiven hs'
  have hfields : ∀ field ∈ Settings.shape.fields, field.IsGiven (valuesOf field.name ms) := by
    simp only [Settings.shape, List.forall_mem_cons, List.not_mem_nil]
    exact ⟨h.totalNodes.isGiven, h.speed.isGiven, h.timeoutMillis.isGiven, hmarkers.isGiven,
      h.speedChange.isGiven, h.outputDir.isGiven, h.format.isGiven, nofun⟩
  obtain ⟨p, hp⟩ := Json.exists_turns (p := ⟨Settings.shape.start, []⟩) hfields h.other (by simp)
  have hrecord : p.record = g.override .standard := by
    refine Settings.ext ?_ ?_ ?_ ?_ ?_ ?_ ?_
    · exact hp.get_record rfl (fun _ _ => rfl) (by simp [shape]) h.totalNodes
    · exact hp.get_record rfl (fun _ _ => rfl) (by simp [shape]) h.speed
    · exact hp.get_record rfl (fun _ _ => rfl) (by simp [shape]) h.timeoutMillis
    · exact hp.get_record rfl (fun _ _ => rfl) (by simp [shape]) hmarkers
    · exact hp.get_record rfl (fun _ _ => rfl) (by simp [shape]) h.speedChange
    · exact hp.get_record rfl (fun _ _ => rfl) (by simp [shape]) h.outputDir
    · exact hp.get_record rfl (fun _ _ => rfl) (by simp [shape]) h.format
  rw [← hrecord]
  exact Json.accepts_record hs hp Settings.isLocal_shape (by simp [shape])

/-- **Settings that are given stand in the place of standard ones**, and nothing else does. -/
theorem Settings.parse_object {g : Settings.Given} {text : String} (h : g.In ms)
    (htext : IsObject ms text.toList) :
    Settings.parse text = .ok (g.override .standard) ∧
    (CommandLine.settingsOfText text =
      (Settings.Fault.lift (g.override .standard).validate).map fun _ => g.override .standard) ∧
    (∀ ms' text', IsObject ms' text'.toList →
      (ms'.filter (·.key ∈ shape.names)).Perm (ms.filter (·.key ∈ shape.names)) →
      (∀ m ∈ ms', m.key ∉ shape.names → Derives .element m.value) →
      Settings.parse text' = Settings.parse text) ∧
    ∀ m ms' text', IsObject ms' text'.toList → ms'.Perm (m :: ms) →
      m.key = "total_nodes" ∨ m.key = "speed_change" → IsNull m.value → valuesOf m.key ms = [] →
      Settings.parse text' = Settings.parse text := by
  have hparse {g : Settings.Given} {ms : List Member} {text : String} (h : g.In ms)
      (htext : IsObject ms text.toList) : Settings.parse text = .ok (g.override .standard) := by
    have haccepts := accepts_object h htext
    rwa [Accepts, String.ofList_toList] at haccepts
  refine ⟨hparse h htext, CommandLine.settingsOfText_of_parse (hparse h htext), ?_, ?_⟩
  · intro ms' text' htext' hperm hother
    rw [hparse (h.perm hperm hother) htext', hparse h htext]
  · intro m ms' text' htext' hperm hkey hnull hnew
    obtain ⟨g', hg', hover⟩ := h.cons_null hkey hnull hnew
    have hother : ∀ m' ∈ ms', m'.key ∉ shape.names → Derives .element m'.value := fun m' hm' =>
      hg'.other m' (hperm.subset hm')
    rw [hparse (hg'.perm (hperm.filter _) hother) htext', hparse h htext, hover]

/-- An object with blanks, an unknown key, a key that is spelled with an escape, markers of which one
is given, and `null`. The value of the unknown key has a number beyond the range of doubles, a closing
bracket for a key and half of a surrogate pair. -/
theorem Settings.parse_object_sample :
    let text := " \x7b\"x\":[-1e999,\x7b\"]\" : \"\\uD800\\\"\"\x7d],\"\\u0074imeout_ms\" : 5," ++
      "\"markers\":\x7b\"receive\":\"Got\",\"y\":null\x7d,\"total_nodes\":null\x7d "
    let g : Settings.Given := ⟨some none, none, some 5,
      some ⟨none, none, some "Got", none, none, none, none⟩, none, none, none⟩
    (∃ ms, g.In ms ∧ IsObject ms text.toList) ∧
      Settings.parse text = .ok { Settings.standard with
        timeoutMillis := 5, markers := { Markers.standard with receive := "Got" } } := by
  intro text g
  have hspace : Blank [' '] := by decide
  have hnumber : Derives .value "-1e999".toList := by
    refine .number (@IsNumber.of ['-'] ['1'] [] "e999".toList ?_ ?_ ?_ ?_)
    · decide
    · exact .inr ⟨by decide, by decide⟩
    · exact .inl rfl
    · exact .inr ⟨'e', by decide, [], by decide, "999".toList, by decide, rfl⟩
  have hkey : IsQuoted "]\"".toList := .plain (by decide) .close
  have hhalf : IsQuoted "\\uD800\\\"\"".toList :=
    .code (by decide) (.letter (by decide) .close)
  have hobject := Derives.filled (.last (.member blank_nil hkey hspace
    (.element hspace (.text hhalf) blank_nil)))
  have harray := Derives.filled (.more (.item (.element blank_nil hnumber blank_nil))
    (.last (.item (.element blank_nil hobject blank_nil))))
  let receive : Member := ⟨"receive", "\"receive\"".toList, "\"Got\"".toList, rfl⟩
  let y : Member := ⟨"y", "\"y\"".toList, "null".toList, rfl⟩
  let x : Member := ⟨"x", "\"x\"".toList, "[-1e999,\x7b\"]\" : \"\\uD800\\\"\"\x7d]".toList, rfl⟩
  let timeout : Member := ⟨"timeout_ms", "\"\\u0074imeout_ms\" ".toList, " 5".toList, rfl⟩
  let markers : Member := ⟨"markers", "\"markers\"".toList,
    "\x7b\"receive\":\"Got\",\"y\":null\x7d".toList, rfl⟩
  let nodes : Member := ⟨"total_nodes", "\"total_nodes\"".toList, "null".toList, rfl⟩
  have hword : Derives .value "null".toList := .word (by decide)
  have hnull : Derives .element "null".toList := .element blank_nil hword blank_nil
  have hgot : Accepts Json.text "\"Got\"".toList "Got" := rfl
  have hfive : Accepts Json.natural " 5".toList 5 := rfl
  have hnone : Accepts (Json.optional Json.natural) "null".toList none := rfl
  have hothers : ∀ m ∈ [receive, y], m.key ∉ Markers.shape.names → Derives .element m.value := by
    simp only [List.forall_mem_cons]
    exact ⟨fun h => absurd (by decide) h, fun _ => hnull, nofun⟩
  have hmarkers : Markers.Given.In ⟨none, none, some "Got", none, none, none, none⟩ [receive, y] :=
    ⟨.absent, .absent, .present hgot, .absent, .absent, .absent, .absent, hothers⟩
  have hinner : IsObject [receive, y] markers.value := .filled receive [y] blank_nil blank_nil
  have hother : ∀ m ∈ [x, timeout, markers, nodes], m.key ∉ Settings.shape.names →
      Derives .element m.value := by
    simp only [List.forall_mem_cons]
    exact ⟨fun _ => .element blank_nil harray blank_nil, fun h => absurd (by decide) h,
      fun h => absurd (by decide) h, fun h => absurd (by decide) h, nofun⟩
  have hg : g.In [x, timeout, markers, nodes] :=
    ⟨.present hnone, .absent, .present hfive, .present ⟨_, hinner, hmarkers⟩, .absent, .absent,
      .absent, hother⟩
  have htext : IsObject [x, timeout, markers, nodes] text.toList := by
    rw [String.toList_append]
    exact .filled x [timeout, markers, nodes] hspace hspace
  exact ⟨⟨_, hg, htext⟩, (parse_object hg htext).1⟩

end Motewatch
