import Motewatch.CommandLine.Run
import Motewatch.Proofs.Except

/-!
# Settings that make sense

Settings are checked one thing after the other, and refused for the first one that is wrong. What
all checks together say is that there is at least one node, that all speeds are speeds, and that no
marker is empty.

## Main results

* `Settings.checkSpeed_eq_ok_iff`, `Settings.checkMarkers_eq_ok_iff` — what each check asks for.
* `Settings.validate_eq_ok_iff` — what all of them ask for.
* `CommandLine.settingsOfText_of_parse` — settings that are read are then checked.
-/

namespace Motewatch

namespace Settings

theorem checkSpeed_eq_ok_iff {field : String} {x : Float} :
    checkSpeed field x = .ok () ↔ isSpeed x = true := by
  cases h : isSpeed x <;> simp [checkSpeed, h]

theorem checkMarkers_eq_ok_iff {markers : List (String × String)} :
    checkMarkers markers = .ok () ↔ ∀ m ∈ markers, m.2 ≠ "" := by
  induction markers with
  | nil => simp [checkMarkers]
  | cons m rest ih =>
    by_cases hm : m.2 = ""
    · simp [checkMarkers, hm]
    · simp [checkMarkers, hm, ih]

/-- The check of the speed to which the simulation changes, if it does. -/
def checkChange : Option SpeedChange → Except Fault Unit
  | none => .ok ()
  | some change => checkSpeed "speed_change.speed_limit" change.speed

/-- The check of the markers. -/
def checkAllMarkers (m : Markers) : Except Fault Unit := do
  checkMarkers (namedMarkers m)
  if m.topology.contains "" then .error .emptyTopologyMarker

/-- The checks in their order. -/
theorem validate_eq (s : Settings) :
    s.validate = if s.totalNodes = some 0 then .error .noNodes else
      checkSpeed "speed_limit" s.speed >>= fun _ => checkChange s.speedChange >>= fun _ =>
        checkAllMarkers s.markers := by
  unfold validate checkChange
  by_cases hzero : s.totalNodes = some 0
  · rw [if_pos hzero, if_pos hzero]
    rfl
  · rw [if_neg hzero, if_neg hzero]
    cases s.speedChange <;> rfl

theorem checkChange_eq_ok_iff {change? : Option SpeedChange} :
    checkChange change? = .ok () ↔ ∀ change ∈ change?, isSpeed change.speed = true := by
  cases change? with
  | none => simp [checkChange]
  | some change => simpa [checkChange] using checkSpeed_eq_ok_iff

theorem checkAllMarkers_eq_ok_iff {m : Markers} :
    checkAllMarkers m = .ok () ↔ (∀ named ∈ namedMarkers m, named.2 ≠ "") ∧ "" ∉ m.topology := by
  have htopology : (if m.topology.contains "" then Except.error Fault.emptyTopologyMarker
      else pure ()) = .ok () ↔ "" ∉ m.topology := by
    by_cases hm : "" ∈ m.topology <;> simp [hm, pure, Except.pure]
  rw [checkAllMarkers, check_bind_eq_ok, checkMarkers_eq_ok_iff]
  exact and_congr_right' htopology

/-- **Settings are accepted exactly if they make sense.** -/
theorem validate_eq_ok_iff (s : Settings) :
    s.validate = .ok () ↔ s.totalNodes ≠ some 0 ∧ isSpeed s.speed = true ∧
      (∀ change ∈ s.speedChange, isSpeed change.speed = true) ∧
      (∀ named ∈ namedMarkers s.markers, named.2 ≠ "") ∧ "" ∉ s.markers.topology := by
  rw [validate_eq, ← @checkSpeed_eq_ok_iff "speed_limit", ← checkChange_eq_ok_iff,
    ← checkAllMarkers_eq_ok_iff]
  split
  · simp [*]
  · simp only [check_bind_eq_ok, ne_eq, *, not_false_eq_true, true_and]

end Settings

/-- Settings that a text holds are accepted if they make sense. -/
theorem CommandLine.settingsOfText_of_parse {text : String} {s : Settings}
    (h : Settings.parse text = .ok s) :
    settingsOfText text = (Settings.Fault.lift s.validate).map fun _ => s := by
  rw [settingsOfText, h]

end Motewatch
