import Motewatch.LinkReport
import Motewatch.Proofs.Json.Cut
import Motewatch.Proofs.Json.Value

/-!
# Reports are found in messages

Only the first object in a message counts, and it begins at the first opening brace. Its text alone
decides where it ends, so that anything may stand behind it, braces and quotation marks included. An
object that has been written is found as it was, if its brackets are not nested too deep.

## Main definitions

* `IsObjectText` — the text of one object.

## Main results

* `linkReport?_append` — what an object reports, wherever it stands in a message.
* `exists_object_of_linkReport` — a report comes from the first object.
* `LinkReport.of_first_object` — what is reported, and what in a message decides that.
-/

namespace Motewatch
open Json (Value)

theorem Text.fromFirst?_eq_some_iff {c : Char} {s t : List Char} :
    Text.fromFirst? c s = some t ↔ ∃ front, s = front ++ t ∧ c ∉ front ∧ t.head? = some c := by
  induction s with
  | nil => simp [Text.fromFirst?]; grind
  | cons d s ih =>
    rw [Text.fromFirst?]
    split
    · subst d
      constructor
      · rintro ⟨⟩
        exact ⟨[], rfl, by simp, rfl⟩
      · rintro ⟨front, hs, hfront, hhead⟩
        cases front with
        | nil => exact congrArg some hs
        | cons d front => grind
    · rw [ih]
      constructor
      · rintro ⟨front, rfl, hfront, hhead⟩
        exact ⟨d :: front, rfl, by simp_all [eq_comm], hhead⟩
      · rintro ⟨front, hs, hfront, hhead⟩
        cases front with
        | nil => grind
        | cons e front => grind

/-- The text of one object that begins with its opening brace, ends with its closing brace and is
nested no deeper than readers go. -/
structure IsObjectText (object : String) (members : Catalog Value) : Prop where
  begins : object.toList.head? = some '{'
  read : Json.catalog (Json.value (Json.maxDepth - 1)) object.toList = .ok (members, [])

/-- What has been written is the text of an object, if it holds only what can be read back. -/
theorem isObjectText_compactText {o : Catalog Value} (hsound : (Value.object o.entries).Sound)
    (hdepth : (Value.object o.entries).depth ≤ Json.maxDepth) :
    IsObjectText (Value.object o.entries).compactText o := by
  have hread : ∀ e ∈ o.entries,
      Json.Reads Json.compact (Json.value (Json.maxDepth - 1)) (id e.2) e.2 := by
    intro e he
    cases hsound with
    | object _ hsound =>
      have hlt := Json.depth_lt_of_mem_object he
      exact Json.reads_value Json.isBlank_compact (hsound e he)
        (Nat.le_sub_one_of_lt (Nat.lt_of_lt_of_le hlt hdepth))
  have hcatalog := Json.reads_catalog Json.isBlank_compact hread 0 Json.blank_nil
    Json.endsNumber_nil
  simp only [id, List.map_id', List.nil_append, List.append_nil] at hcatalog
  constructor
  · cases o.entries <;> simp [Value.compactText, Value.write]
  · rwa [Value.compactText, String.toList_ofList]

/-- **What an object reports**, wherever it stands in a message. -/
theorem linkReport?_append {front object : String} {members : Catalog Value}
    (hfront : '{' ∉ front.toList) (h : IsObjectText object members) (rest : String) :
    linkReport? (front ++ object ++ rest) = LinkReport.ofMembers? members := by
  have hfrom : Text.fromFirst? '{' (front ++ object ++ rest).toList =
      some (object.toList ++ rest.toList) := by
    refine Text.fromFirst?_eq_some_iff.2 ⟨front.toList, by simp, hfront, ?_⟩
    rw [List.head?_append, h.begins]
    rfl
  obtain ⟨taken, hobject, -, hread⟩ := Json.cuts_catalog (Json.cuts_value _) h.read
  rw [List.append_nil] at hobject
  have hcatalog := @hread rest.toList trivial
  rw [← hobject] at hcatalog
  rw [linkReport?, hfrom]
  simp only [Option.bind_eq_bind, Option.bind_some, hcatalog]

/-- A report comes from the first object in the message. -/
theorem exists_object_of_linkReport {message : String} {r : LinkReport}
    (h : linkReport? message = some r) :
    ∃ front object rest members, message = front ++ object ++ rest ∧ '{' ∉ front.toList ∧
      IsObjectText object members ∧ LinkReport.ofMembers? members = some r := by
  obtain ⟨s, hs, hreport⟩ := Option.bind_eq_some_iff.1 h
  obtain ⟨front, hmessage, hfront, hhead⟩ := Text.fromFirst?_eq_some_iff.1 hs
  split at hreport
  · contradiction
  · rename_i members rest hread
    obtain ⟨taken, rfl, hleast, htaken⟩ := Json.cuts_catalog (Json.cuts_value _) hread
    have hobject := @htaken [] trivial
    rw [List.append_nil] at hobject
    refine ⟨String.ofList front, String.ofList taken, String.ofList rest, members, ?_, by simpa, ?_,
      hreport⟩
    · rw [← String.ofList_append, ← String.ofList_append, List.append_assoc, ← hmessage,
        String.ofList_toList]
    · refine ⟨?_, by rwa [String.toList_ofList]⟩
      rw [String.toList_ofList]
      cases taken with
      | nil => contradiction
      | cons c taken => exact hhead

/-- **Reports are found.** Of an object that stands behind a text without opening brace, its member
for the neighbour and the others are reported. Whatever is reported has no such member among the
others and comes from the first object in the message, and what stands behind this object counts for
nothing, whether it has such a member or not. -/
theorem LinkReport.of_first_object :
    (∀ (before after : String) (o : Catalog Value), '{' ∉ before.toList →
      (Value.object o.entries).Sound → (Value.object o.entries).depth ≤ Json.maxDepth →
      (o.get? "neighbor" = none →
        linkReport? (before ++ (Value.object o.entries).compactText ++ after) = none) ∧
      ∀ v, o.get? "neighbor" = some v →
        ∃ r, linkReport? (before ++ (Value.object o.entries).compactText ++ after) = some r ∧
          (∀ s, v = .text s → r.neighbor = s) ∧
          ((∀ s, v ≠ .text s) → r.neighbor = v.compactText) ∧
          r.fields.entries = o.entries.filter fun e => e.1 ≠ "neighbor") ∧
    (∀ message r, linkReport? message = some r →
      (∀ e ∈ r.fields.entries, e.1 ≠ "neighbor") ∧
      ∃ front object rest members, message = front ++ object ++ rest ∧ '{' ∉ front.toList ∧
        IsObjectText object members) ∧
    ∀ (front object : String) (members : Catalog Value), '{' ∉ front.toList →
      IsObjectText object members → ∀ rest after,
      linkReport? (front ++ object ++ rest) = linkReport? (front ++ object ++ after) := by
  refine ⟨fun before after o hbefore hsound hdepth => ?_, fun message r h => ?_,
    fun front object members hfront hobject rest after => ?_⟩
  · rw [linkReport?_append hbefore (isObjectText_compactText hsound hdepth), ofMembers?]
    constructor
    · intro hnone
      rw [hnone, Option.map_none]
    · intro v hv
      rw [hv, Option.map_some]
      refine ⟨_, rfl, ?_, fun hother => ?_, rfl⟩
      · rintro s rfl
        rfl
      · cases v with
        | text s => exact absurd rfl (hother s)
        | _ => rfl
  · obtain ⟨front, object, rest, members, hmessage, hfront, hobject, hr⟩ :=
      exists_object_of_linkReport h
    obtain ⟨v, -, rfl⟩ := Option.map_eq_some_iff.1 hr
    exact ⟨members.not_mem_erase "neighbor", front, object, rest, members, hmessage, hfront,
      hobject⟩
  · rw [linkReport?_append hfront hobject, linkReport?_append hfront hobject]

/-- An object whose texts hold quotation marks and braces. -/
def LinkReport.sample : Catalog Value :=
  ⟨[("etx", .array [.double 2.5, .null]), ("neighbor", .text "\x7d\"\x7b"), ("rx", .int 5)],
    by decide⟩

theorem LinkReport.sound_sample : (Value.object sample.entries).Sound := by
  have hetx : ∀ v ∈ [Value.double 2.5, .null], v.Sound := by
    simp only [List.forall_mem_cons]
    exact ⟨.double (by decide +kernel), .null, by simp⟩
  refine .object (by decide) ?_
  simp only [sample, List.forall_mem_cons]
  exact ⟨.array hetx, .text _, .int (by decide), by simp⟩

theorem LinkReport.isObjectText_empty : IsObjectText "\x7b \x7d" .empty := ⟨rfl, rfl⟩

/-- An object between two texts, and an object without members before two others. -/
theorem LinkReport.of_first_object_sample :
    '{' ∉ "rx 5 ".toList ∧ (Value.object sample.entries).Sound ∧
      (Value.object sample.entries).depth ≤ Json.maxDepth ∧
      sample.get? "neighbor" = some (.text "\x7d\"\x7b") ∧
      (∃ r,
        linkReport? ("rx 5 " ++ (Value.object sample.entries).compactText ++ "\x7d 1") = some r ∧
        r.neighbor = "\x7d\"\x7b" ∧
        r.fields.entries = [("etx", .array [.double 2.5, .null]), ("rx", .int 5)] ∧
        ∀ e ∈ r.fields.entries, e.1 ≠ "neighbor") ∧
      linkReport? ("rx 5 " ++ "\x7b \x7d" ++ "\x7d") =
        linkReport? ("rx 5 " ++ "\x7b \x7d" ++ "\x7b") := by
  have hbefore : '{' ∉ "rx 5 ".toList := by decide
  have hdepth : (Value.object sample.entries).depth ≤ Json.maxDepth := by decide
  obtain ⟨hwritten, hfound, hbehind⟩ := of_first_object
  obtain ⟨r, hr, hneighbor, -, hfields⟩ :=
    (hwritten "rx 5 " "\x7d 1" sample hbefore sound_sample hdepth).2 _ rfl
  exact ⟨hbefore, sound_sample, hdepth, rfl,
    ⟨r, hr, hneighbor _ rfl, hfields, (hfound _ r hr).1⟩,
    hbehind "rx 5 " _ _ hbefore isObjectText_empty _ _⟩

end Motewatch
