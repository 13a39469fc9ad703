import Motewatch.Storage.Tree

/-!
# Files in a tree

A path is followed through directories only, and a file never takes the place of a directory. So
paths lead to the same places after files were opened and written, and a file that was opened is
found again under its path, with what was last kept in it.

## Main definitions

* `Tree.Extends` — a tree with all directories of another one.
* `Tree.Opened` — what opening a file does.

## Main results

* `Tree.Extends.follow` — paths lead to the same places.
* `Tree.opened_of_openNew` — every file that is opened is opened like that.
* `Tree.Opened.read` — a file that was opened is found again.
* `Tree.Opened.exists_name` — the place of a file ends in what its path ends in.
-/

namespace Motewatch.Storage

/-! ## The last name of a path -/

/-- What follows the last slash of a text stays with the last part. -/
theorem exists_splitOn_append_eq (s : List Char) {ending : List Char} (h : '/' ∉ ending) :
    ∃ parts last, (s ++ ending).splitOn '/' = parts ++ [last ++ ending] := by
  induction s with
  | nil =>
      refine ⟨[], [], ?_⟩
      rw [List.nil_append, List.splitOn_eq_singleton h]
      rfl
  | cons c rest ih =>
      obtain ⟨parts, last, heq⟩ := ih
      rw [List.cons_append, List.splitOn_cons_eq_if_modifyHead, heq]
      by_cases hc : c = '/'
      · exact ⟨[] :: parts, last, by simp [hc]⟩
      · cases parts with
        | nil => exact ⟨[], c :: last, by simp [hc]⟩
        | cons part parts => exact ⟨(c :: part) :: parts, last, by simp [hc]⟩

/-- The last name of a path ends in what the path ends in. -/
theorem exists_pathParts_append_eq (path : String) {ending : String} (h : '/' ∉ ending.toList)
    (hne : ending ≠ "") : ∃ names last, pathParts (path ++ ending) = names ++ [last ++ ending] := by
  obtain ⟨parts, last, heq⟩ := exists_splitOn_append_eq path.toList h
  have hlast : last ++ ending.toList ≠ [] := by simp [hne]
  refine ⟨(parts.filter (· ≠ [])).map String.ofList, String.ofList last, ?_⟩
  rw [pathParts, String.toList_append, heq, List.filter_append, List.map_append]
  simp [hlast]

theorem pathNames_append {path ending : String} (h : '/' ∉ ending.toList) (hne : ending ≠ "")
    {names : List String} (hnames : pathNames (path ++ ending) = .ok names) :
    names = pathParts (path ++ ending) := by
  have hlast : (path ++ ending).toList.getLast? ≠ some '/' := by
    have hlist : ending.toList ≠ [] := by simpa using hne
    rw [String.toList_append, List.getLast?_append, List.getLast?_eq_some_getLast hlist,
      Option.some_or]
    intro hslash
    exact h (Option.some.inj hslash ▸ List.getLast_mem hlist)
  unfold pathNames at hnames
  cases hcheck : checkPath (path ++ ending) with
  | error fault => simp [hcheck, bind, Except.bind] at hnames
  | ok _ =>
    simp only [hcheck, bind, Except.bind, hlast, false_and, if_false, Except.ok.injEq] at hnames
    exact hnames.symm

namespace Tree
variable {t t' : Tree} {place other : List String} {path : String} {bytes : ByteArray}
variable {device : Device}

/-! ## Putting files -/

theorem lookup_filter_ne {entries : List (List String × Entry)} (h : other ≠ place) :
    (entries.filter fun old => old.1 ≠ place).lookup other = entries.lookup other := by
  induction entries with
  | nil => rfl
  | cons old rest ih =>
      obtain ⟨names, e⟩ := old
      by_cases hnames : names = place
      · have hne : (other == names) = false := by simpa [hnames] using h
        simp only [hnames, ne_eq, not_true, decide_false, Bool.false_eq_true, not_false_eq_true,
          List.filter_cons_of_neg, ih]
        rw [List.lookup_cons, ← hnames, hne]
      · rw [List.filter_cons_of_pos (by simpa using hnames), List.lookup_cons, List.lookup_cons, ih]

/-- A tree holds what was put in it last, and otherwise what it held before. -/
theorem entry?_put (t : Tree) {place : List String} (h : place ≠ []) (e : Entry)
    (other : List String) :
    Tree.entry? (t.put place e) other = if other = place then some e else t.entry? other := by
  by_cases hother : other = place
  · simp [ entry?, put, hother, h]
  · have hne : (other == place) = false := by simpa using hother
    rw [if_neg hother, entry?, entry?, put, List.lookup_cons, hne, lookup_filter_ne hother]

/-- The top is a directory. -/
theorem ne_nil_of_free (h : t.entry? place ≠ some .directory) : place ≠ [] := by
  rintro rfl
  exact h (by simp [ entry?])

/-- The tree has all directories of another one, and paths lead from the same one. -/
structure Extends (t t' : Tree) : Prop where
  here : t'.here = t.here
  directory : ∀ place, t.entry? place = some .directory → t'.entry? place = some .directory

theorem Extends.refl (t : Tree) : Extends t t := ⟨rfl, fun _ h => h⟩

theorem Extends.trans {t'' : Tree} (h : Extends t t') (h' : Extends t' t'') : Extends t t'' :=
  ⟨h'.here.trans h.here, fun place hplace => h'.directory place (h.directory place hplace)⟩

/-- A file takes no place of a directory. -/
theorem extends_put (h : t.entry? place ≠ some .directory) (e : Entry) :
    Extends t (t.put place e) := by
  refine ⟨rfl, fun other hother => ?_⟩
  have hne : other ≠ place := by
    rintro rfl
    exact h hother
  rw [entry?_put t (ne_nil_of_free h), if_neg hne, hother]

/-! ## Following paths -/

theorem follow_append (t : Tree) (start names more : List String) :
    t.follow start (names ++ more) = (t.follow start names).bind fun place =>
      t.follow place more := by
  induction names generalizing start with
  | nil => rfl
  | cons name rest ih =>
      rw [List.cons_append, follow, follow]
      cases t.entry? start with
      | none => rfl
      | some e =>
        cases e with
        | directory =>
          dsimp only
          split
          · rfl
          · exact ih _
        | _ => rfl

/-- Paths lead to the same places in a tree that has all directories of another one. -/
theorem Extends.follow (h : Extends t t') {start names : List String}
    (hplace : t.follow start names = .ok place) : t'.follow start names = .ok place := by
  induction names generalizing start with
  | nil => exact hplace
  | cons name rest ih =>
      rw [Tree.follow] at hplace ⊢
      cases hentry : t.entry? start with
      | none => simp [hentry] at hplace
      | some e =>
        cases e with
        | directory =>
          rw [hentry] at hplace
          rw [h.directory start hentry]
          dsimp only at hplace ⊢
          split at hplace
          · contradiction
          · rename_i hshort
            rw [if_neg hshort]
            exact ih hplace
        | _ => simp [hentry] at hplace

/-- The place of what a path leads to ends in the last name of the path, if that is not dots. -/
theorem getLast?_of_follow {start names : List String} {name : String} (hdot : name ≠ ".")
    (hup : name ≠ "..") (h : t.follow start (names ++ [name]) = .ok place) :
    place.getLast? = some name := by
  rw [follow_append] at h
  cases haround : t.follow start names with
  | error fault => simp [haround, Except.bind] at h
  | ok around =>
    simp only [haround, Except.bind, follow] at h
    split at h
    · contradiction
    · split at h
      · contradiction
      · obtain rfl := Except.ok.inj h
        simp [placeIn, hdot, hup]
    · contradiction
    · contradiction

/-! ## Opening files -/

/-- What stands at the place of a file that was just opened. -/
def newEntry : Device → Entry
  | .working => .file .empty
  | .full => .fullDevice
  | .filling requests => .fillingFile .empty requests

theorem newEntry_ne_directory (device : Device) : some (newEntry device) ≠ some .directory := by
  cases device <;> simp [newEntry]

/-- What opening a file does: the path leads to the place of the file, which is no directory and
holds an empty file then, unless the file lies on the full device. -/
structure Opened (t : Tree) (path : String) (t' : Tree) (device : Device) (place : List String) :
    Prop where
  leads : ∃ names, pathNames path = .ok names ∧ t.follow (t.startOf path) names = .ok place
  free : t.entry? place ≠ some .directory
  device_full : device = .full → t.entry? place = some .fullDevice
  tree_eq : t' = match device with
    | .full => t
    | device => t.put place (newEntry device)

theorem opened_of_openNew (h : t.openNew path = .ok (t', device, place)) :
    Opened t path t' device place := by
  unfold openNew at h
  cases hnames : pathNames path with
  | error fault => simp [hnames, bind, Except.bind] at h
  | ok names =>
    cases hplace : t.follow (t.startOf path) names with
    | error fault => simp [hnames, hplace, bind, Except.bind] at h
    | ok found =>
      simp only [hnames, hplace, bind, Except.bind] at h
      split at h
      · contradiction
      · rename_i hentry
        obtain ⟨rfl, rfl, rfl⟩ := by simpa only [Except.ok.injEq, Prod.mk.injEq] using h
        exact ⟨⟨names, hnames, hplace⟩, by simp [hentry], fun _ => hentry, rfl⟩
      · rename_i hentry
        obtain ⟨rfl, rfl, rfl⟩ := by simpa only [Except.ok.injEq, Prod.mk.injEq] using h
        exact ⟨⟨names, hnames, hplace⟩, by simp [hentry], by simp, rfl⟩
      · contradiction
      · rename_i hdirectory _ _ _
        obtain ⟨rfl, rfl, rfl⟩ := by simpa only [Except.ok.injEq, Prod.mk.injEq] using h
        exact ⟨⟨names, hnames, hplace⟩, hdirectory, by simp, rfl⟩

namespace Opened
variable (h : Opened t path t' device place)
include h

theorem grows : Extends t t' := by
  rw [h.tree_eq]
  cases device with
  | full => exact Extends.refl t
  | _ => exact extends_put h.free _

/-- What stands at the place of the file once it is open. -/
theorem entry?_eq : t'.entry? place = some (newEntry device) := by
  rw [h.tree_eq]
  cases device with
  | full => exact h.device_full rfl
  | _ => simp [entry?_put t (ne_nil_of_free h.free)]

/-- Opening a file changes nothing elsewhere. -/
theorem entry?_of_ne (hne : other ≠ place) : t'.entry? other = t.entry? other := by
  rw [h.tree_eq]
  cases device with
  | full => rfl
  | _ => rw [entry?_put t (ne_nil_of_free h.free), if_neg hne]

/-- **A file that was opened is found again** under its path in every tree that has the directories,
with what stands at its place. -/
theorem read {t'' : Tree} (hext : Extends t t'') (hentry : t''.entry? place = some (.file bytes)) :
    t''.read path = .ok bytes := by
  obtain ⟨names, hnames, hplace⟩ := h.leads
  have hstart : t''.startOf path = t.startOf path := by rw [startOf, startOf, hext.here]
  simp only [Tree.read, hnames, hstart, hext.follow hplace, hentry, bind, Except.bind]

end Opened

/-- **The place of a file ends in what its path ends in.** -/
theorem Opened.exists_name {ending : String} (h : Opened t (path ++ ending) t' device place)
    (hslash : '/' ∉ ending.toList) (hlong : 2 < ending.length) :
    ∃ name, place.getLast? = some (name ++ ending) := by
  have hne : ending ≠ "" := by
    rintro rfl
    simp at hlong
  obtain ⟨names, hnames, hplace⟩ := h.leads
  obtain ⟨around, last, hparts⟩ := exists_pathParts_append_eq path hslash hne
  rw [pathNames_append hslash hne hnames, hparts] at hplace
  have hlength : 2 < (last ++ ending).length := by
    rw [String.length_append]
    omega
  refine ⟨last, getLast?_of_follow ?_ ?_ hplace⟩
  · intro hdot
    rw [hdot] at hlength
    contradiction
  · intro hup
    rw [hup] at hlength
    contradiction

/-! ## Keeping what was written -/

/-- What was written to a file on a working device is what the tree holds at its place. -/
theorem entry?_keep_self (hfree : t.entry? place ≠ some .directory) {s : Sink}
    (h : s.device = .working) :
    Tree.entry? (t.keep place s) place = some (.file s.written.toUTF8) := by
  rw [keep, h]
  simp [entry?_put t (ne_nil_of_free hfree)]

theorem entry?_keep_of_ne (hfree : t.entry? place ≠ some .directory) (s : Sink)
    (h : other ≠ place) : Tree.entry? (t.keep place s) other = t.entry? other := by
  rw [keep]
  split
  · rw [entry?_put t (ne_nil_of_free hfree), if_neg h]
  · rfl
  · rw [entry?_put t (ne_nil_of_free hfree), if_neg h]

theorem extends_keep (hfree : t.entry? place ≠ some .directory) (s : Sink) :
    Extends t (t.keep place s) := by
  rw [keep]
  split
  · exact extends_put hfree _
  · exact Extends.refl t
  · exact extends_put hfree _

end Tree

end Motewatch.Storage
