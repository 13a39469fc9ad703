import Motewatch.Proofs.Json.Record
import Motewatch.Proofs.Settings.Validation

/-!
# Settings are read back

Settings are written as an object with all fields in their order, and so are the markers and the
change of speed in them. What is not set is written as `null`. Reading them back brings each field
to what it was, and settings that make sense are accepted again.

## Main definitions

* `Settings.Sound` — settings that can stand in a text.

## Main results

* `reads_markers`, `reads_speedChange`, `reads_settings` — the records, in any spacing.
* `Settings.parse_written` — settings and markers are read back.
-/

namespace Motewatch
open Json (Reads Spacing ReadsBack)

variable {spacing : Spacing}

/-- Settings whose numbers fit words and whose speeds are read back. -/
structure Settings.Sound (s : Settings) : Prop where
  totalNodes : ∀ n ∈ s.totalNodes, n < wordLimit
  timeout : s.timeoutMillis < wordLimit
  speed : ReadsBack s.speed
  change : ∀ change ∈ s.speedChange, ReadsBack change.speed

section
variable (hs : spacing.IsBlank)

include hs in
theorem reads_markers (m : Markers) : Reads spacing Markers.shape.read m.toJson m := by
  refine Json.reads_record hs (by decide) ?_
  have htopology : Reads spacing (Json.array Json.text) (.array (m.topology.map .text)) m.topology :=
    Json.reads_array hs fun s _ => Json.reads_text s
  exact .of (Json.reads_text m.completion) <| .of (Json.reads_text m.scheduleUpdate) <|
    .of (Json.reads_text m.receive) <| .of (Json.reads_text m.transmit) <|
    .of (Json.reads_text m.timeout) <| .of htopology <| .of (Json.reads_text m.neighborLink) (.nil m)

theorem reads_trigger (t : Trigger) :
    Reads spacing (Json.choice Trigger.names) (.text t.name) t := by
  refine Json.reads_choice ?_
  cases t <;> rfl

theorem reads_format (f : Report.Format) :
    Reads spacing (Json.choice Settings.formatNames) (.text (Settings.formatName f)) f := by
  refine Json.reads_choice ?_
  cases f <;> rfl

include hs in
theorem reads_speedChange {change : SpeedChange} (h : ReadsBack change.speed) :
    Reads spacing SpeedChange.shape.read change.toJson change := by
  refine Json.reads_record hs (by decide) ?_
  exact .of (Json.reads_double h) <| .of (reads_trigger change.trigger) (.nil change)

-- The bound stands behind the colon, so that the match does not take it in.
include hs in
theorem reads_change (change? : Option SpeedChange) :
    (∀ change ∈ change?, ReadsBack change.speed) →
    Reads spacing (Json.optional SpeedChange.shape.read)
      (match change? with
        | none => .null
        | some change => change.toJson) change? := by
  intro hchange
  cases change? with
  | none => exact Json.reads_optional_none SpeedChange.shape.read
  | some change =>
    refine Json.reads_optional_some (reads_speedChange hs (hchange change rfl)) fun depth c hc => ?_
    obtain rfl := Option.some.inj hc
    decide

include hs in
theorem reads_settings {s : Settings} (h : s.Sound) :
    Reads spacing Settings.shape.read s.toJson s := by
  refine Json.reads_record hs (by decide) ?_
  exact .of (Json.reads_natural? s.totalNodes h.totalNodes) <| .of (Json.reads_double h.speed) <|
    .of (Json.reads_natural h.timeout) <| .of (reads_markers hs s.markers) <|
    .of (reads_change hs s.speedChange h.change) <| .of (Json.reads_text s.outputDir) <|
    .of (reads_format s.format) (.nil s)

end

/-- **Settings are read back.** Settings that make sense and can stand in a text are what their text
without blanks is read and accepted as; so are markers, whether or not they make sense. -/
theorem Settings.parse_written :
    (∀ s : Settings, s.Sound → s.validate = .ok () →
      CommandLine.settingsOfText s.toJson.compactText = .ok s) ∧
    ∀ m : Markers, Markers.parse m.toJson.compactText = .ok m := by
  refine ⟨fun s hs hvalid => ?_, fun m => ?_⟩
  · have hparse : Settings.parse s.toJson.compactText = .ok s :=
      Json.parse_compactText (reads_settings Json.isBlank_compact hs)
    rw [CommandLine.settingsOfText_of_parse hparse, hvalid]
    rfl
  · exact Json.parse_compactText (reads_markers Json.isBlank_compact m)

/-- The largest numbers, a double that is no short decimal, a change of speed, and markers with
controls, marks and backslashes; the markers by themselves may be empty. -/
theorem Settings.parse_written_sample :
    let m : Markers := ⟨"\x01\"é\n", "\\u0000", "\u2028", "/", "😀", [], "\x7f"⟩
    let empty : Markers := ⟨"", "", "", "", "", [""], ""⟩
    let s : Settings := ⟨some (wordLimit - 1), 0.1, wordLimit - 1, m, some ⟨1e21, .linkCount⟩,
      "out \"1\"", .flat⟩
    s.Sound ∧ s.validate = .ok () ∧ CommandLine.settingsOfText s.toJson.compactText = .ok s ∧
      Markers.parse empty.toJson.compactText = .ok empty := by
  intro m empty s
  have hsound : s.Sound := by
    refine ⟨by decide, by decide, by decide +kernel, ?_⟩
    rintro change ⟨⟩
    decide +kernel
  have hvalid : s.validate = .ok () := by decide +kernel
  obtain ⟨hsettings, hmarkers⟩ := parse_written
  exact ⟨hsound, hvalid, hsettings s hsound hvalid, hmarkers empty⟩

end Motewatch
