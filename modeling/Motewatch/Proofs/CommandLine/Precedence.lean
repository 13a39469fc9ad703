import Motewatch.Proofs.CommandLine.Rejection
import Motewatch.Proofs.Settings.Validation

/-!
# Precedence of the command line

A value on the command line stands in the place of the one in the settings file. The settings are
checked with these values in their place, but those of the file are also checked by themselves. So a
file that is refused by itself is refused whatever the command line says; with every other file the
settings in force, and whether they are refused, depend on the values in force only.

The two checks differ in what the command line can change: the number of nodes and the speed.

## Main definitions

* `stated` — the settings of a settings file before they are checked.

## Main results

* `settings_eq_of_stated` — the checks in their order.
* `settings_precedence` — what a value in the file counts for once it is replaced.
* `settings_of_refused_file` — a value that is replaced and still refused.
-/

namespace Motewatch

namespace CommandLine
variable {a : Arguments} {fileText : Option String} {base : Settings}

/-- The settings that the settings file states, whether or not they make sense. -/
def stated : Option String → Except Json.Fault Settings
  | none => .ok .standard
  | some text => Settings.parse text

/-- The settings of the file are checked, and then those in force. -/
theorem settings_eq_of_stated (hbase : stated fileText = .ok base) (a : Arguments) :
    a.settings fileText = Settings.Fault.lift base.validate >>= fun _ =>
      Settings.Fault.lift (a.override base).validate >>= fun _ => .ok (a.override base) := by
  rw [settings_eq]
  cases fileText with
  | none =>
    obtain rfl := Except.ok.inj hbase
    rfl
  | some text =>
    rw [fileSettings, settingsOfText_of_parse hbase]
    rcases base.validate with cause | ⟨⟩ <;> rfl

/-- If the values in force make sense, those of the file do so exactly if the ones that are replaced
do. -/
theorem validate_iff_of_override (hmerged : (a.override base).validate = .ok ()) :
    base.validate = .ok () ↔ (a.nodes.isSome = true → base.totalNodes ≠ some 0) ∧
      (a.speed.isSome = true → isSpeed base.speed = true) := by
  obtain ⟨hnodes, hspeed, hrest⟩ := (Settings.validate_eq_ok_iff (a.override base)).1 hmerged
  have hnodes' : base.totalNodes ≠ some 0 ↔ (a.nodes.isSome = true → base.totalNodes ≠ some 0) := by
    cases h : a.nodes with
    | none => simpa [Arguments.override, h] using hnodes
    | some n => simp
  have hspeed' : isSpeed base.speed = true ↔
      (a.speed.isSome = true → isSpeed base.speed = true) := by
    cases h : a.speed with
    | none => simpa [Arguments.override, h] using hspeed
    | some x => simp
  rw [Settings.validate_eq_ok_iff, ← hnodes', ← hspeed']
  exact ⟨fun h => ⟨h.1, h.2.1⟩, fun h => ⟨h.1, h.2, hrest⟩⟩

/-- **What the command line takes precedence over.** If the settings of the file make sense by
themselves, or if there is no file, then the settings in force are accepted exactly if they make sense,
and are otherwise refused for what is wrong with them; values of the file that are replaced do not
count. If the settings of the file make no sense by themselves, they are refused for that, whatever
the command line says. The two come apart for settings in force that make sense exactly if the file
has no nodes or no speed and the command line replaces that value. -/
theorem settings_precedence (hbase : stated fileText = .ok base) (a : Arguments) :
    let merged := a.override base
    (base.validate = .ok () →
      (∀ s, a.settings fileText = .ok s ↔ s = merged ∧ merged.validate = .ok ()) ∧
      (∀ cause, a.settings fileText = .error (.settings cause) ↔ merged.validate = .error cause) ∧
      ∀ otherText other, stated otherText = .ok other → other.validate = .ok () →
        a.override other = merged → a.settings otherText = a.settings fileText) ∧
    (∀ cause, base.validate = .error cause → a.settings fileText = .error (.settings cause)) ∧
    (merged.validate = .ok () → (base.validate = .ok () ↔
      (a.nodes.isSome = true → base.totalNodes ≠ some 0) ∧
        (a.speed.isSome = true → isSpeed base.speed = true))) := by
  intro merged
  refine ⟨fun hvalid => ?_, fun cause hcause => ?_, validate_iff_of_override⟩
  · have haccepted {text : Option String} {s : Settings} (hs : stated text = .ok s)
        (hvalid : s.validate = .ok ()) : a.settings text =
          Settings.Fault.lift (a.override s).validate >>= fun _ => .ok (a.override s) := by
      rw [settings_eq_of_stated hs, hvalid]
      rfl
    refine ⟨fun s => ?_, fun cause => ?_, fun otherText other hother hvalid' heq => ?_⟩
    · rw [haccepted hbase hvalid, check_bind_eq_ok, Settings.Fault.lift_eq_ok, and_comm]
      exact and_congr_left' (by rw [Except.ok.injEq, eq_comm])
    · rw [haccepted hbase hvalid]
      rcases (a.override base).validate with fault | ⟨⟩ <;>
        simp [Settings.Fault.lift, bind, Except.bind]
    · rw [haccepted hbase hvalid, haccepted hother hvalid', heq]
  · rw [settings_eq_of_stated hbase, hcause]
    rfl

/-- A number of nodes in the file that is replaced does not count, unless it is none. -/
theorem settings_precedence_nodes :
    let a : Arguments := ⟨"t.log", some "c.json", some 1, none, none, none, none, false⟩
    let two := { Settings.standard with totalNodes := some 2 }
    let zero := { Settings.standard with totalNodes := some 0 }
    let ofTwo := some "\x7b\"total_nodes\":2\x7d"
    let ofZero := some "\x7b\"total_nodes\":0\x7d"
    stated ofTwo = .ok two ∧ two.validate = .ok () ∧ a.settings ofTwo = .ok (a.override two) ∧
      a.settings none = a.settings ofTwo ∧
      stated ofZero = .ok zero ∧ a.settings ofZero = .error (.settings .noNodes) := by
  intro a two zero ofTwo ofZero
  have htwo : stated ofTwo = .ok two := rfl
  have hzero : stated ofZero = .ok zero := rfl
  have hvalid : two.validate = .ok () := by decide +kernel
  have hmerged : (a.override two).validate = .ok () := by decide +kernel
  obtain ⟨haccepted, hsame⟩ := And.imp_right And.right ((settings_precedence htwo a).1 hvalid)
  refine ⟨htwo, hvalid, (haccepted _).2 ⟨rfl, hmerged⟩, hsame none .standard rfl rfl rfl, hzero, ?_⟩
  exact (settings_precedence hzero a).2.1 _ rfl

/-- A file without nodes is refused, though the command line says how many there are and all would be
well without the file, or with any other number in it. -/
theorem settings_of_refused_file :
    let a : Arguments := ⟨"t.log", some "c.json", some 1, none, none, none, none, false⟩
    let text := some "\x7b\"total_nodes\":0\x7d"
    let base := { Settings.standard with totalNodes := some 0 }
    stated text = .ok base ∧ (a.override base).validate = .ok () ∧
      a.settings text = .error (.settings .noNodes) ∧
      a.override .standard = a.override base ∧ a.settings none = .ok (a.override base) := by
  intro a text base
  have hbase : stated text = .ok base := rfl
  have hnone : stated none = .ok .standard := rfl
  have hvalid : Settings.standard.validate = .ok () := rfl
  have hmerged : (a.override base).validate = .ok () := by decide +kernel
  refine ⟨hbase, hmerged, ?_, rfl, ?_⟩
  · rw [settings_eq_of_stated hbase]
    rfl
  · rw [settings_eq_of_stated hnone, hvalid]
    exact check_bind_eq_ok.2 ⟨rfl, check_bind_eq_ok.2 ⟨Settings.Fault.lift_eq_ok.2 hmerged, rfl⟩⟩

end CommandLine
end Motewatch
