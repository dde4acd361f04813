import Mathlib.Data.List.Nodup
import SmsRelay.Store.Disk

/-!
# Files of a directory

How the path of a name within a directory leads to its place, and what putting a file there changes:
this place and nothing else, and no way.

## Main results

* `IsDirectory.resolve_join`: the path of a name leads into the directory.
* `IsDirectory.put`: putting a file into the directory leaves it where it was.
* `append_cases`: what an addition to a file does.
* `names_eq_ok_iff`, `mem_childNames`, `childNames_put`: the names in a directory.
-/

namespace SmsRelay

namespace Disk

/-! ### Places -/

theorem lookup_filter_ne (es : List (Place × Node)) {p q : Place} (h : q ≠ p) :
    (es.filter (·.1 ≠ p)).lookup q = es.lookup q := by
  induction es with
  | nil => rfl
  | cons e es ih =>
    obtain ⟨r, n⟩ := e
    by_cases hr : r = p
    · subst hr
      have hne : (q == r) = false := beq_eq_false_iff_ne.mpr h
      rw [List.filter_cons_of_neg (by simp), ih, List.lookup_cons, hne]
    · rw [List.filter_cons_of_pos (by simpa using hr), List.lookup_cons, List.lookup_cons, ih]

theorem at?_put (d : Disk) {p : Place} (hp : p ≠ []) (n : Node) (q : Place) :
    (d.put p n).at? q = if q = p then some n else d.at? q := by
  by_cases hq : q = p
  · subst hq
    have hgone : (d.entries.filter (·.1 ≠ q)).lookup q = none := by
      rw [List.lookup_eq_none_iff]
      intro e he
      simpa using Ne.symm (by simpa using (List.mem_filter.mp he).2)
    rw [if_pos rfl, at?, if_neg hp, put, List.lookup_append, hgone, List.lookup_cons_self]
    rfl
  · rw [if_neg hq, at?, at?]
    split
    · rfl
    · have hne : (q == p) = false := beq_eq_false_iff_ne.mpr hq
      rw [put, List.lookup_append, lookup_filter_ne _ hq, List.lookup_cons, hne, List.lookup_nil,
        Option.or_none]

theorem at?_put_child (d : Disk) (p : Place) (name other : String) (n : Node) :
    (d.put (p ++ [name]) n).at? (p ++ [other]) =
      if other = name then some n else d.at? (p ++ [other]) := by
  rw [at?_put d (by simp)]
  exact if_congr (by simp) rfl rfl

theorem at?_erase (d : Disk) (p q : Place) :
    (d.erase p).at? q = if q = p ∧ q ≠ [] then none else d.at? q := by
  by_cases hroot : q = []
  · rw [if_neg fun h => h.2 hroot, at?, at?, if_pos hroot, if_pos hroot]
  · rw [at?, at?, if_neg hroot, if_neg hroot, erase]
    by_cases hq : q = p
    · subst hq
      rw [if_pos ⟨rfl, hroot⟩, List.lookup_eq_none_iff]
      intro e he
      simpa using Ne.symm (by simpa using (List.mem_filter.mp he).2)
    · rw [if_neg fun h => hq h.1, lookup_filter_ne _ hq]

/-- The way through directories does not depend on anything else. -/
theorem walk_mono {d d' : Disk}
    (h : ∀ q, d.at? q = some .directory → d'.at? q = some .directory) {p q : Place}
    {names : List String} (hwalk : d.walk p names = .ok q) : d'.walk p names = .ok q := by
  induction names generalizing p with
  | nil => exact hwalk
  | cons name rest ih =>
    simp only [walk] at hwalk ⊢
    split
    · rename_i hup
      rw [if_pos hup] at hwalk
      exact ih hwalk
    · rename_i hdown
      rw [if_neg hdown] at hwalk
      split
      · rename_i hlong
        rw [if_pos hlong] at hwalk
        cases hwalk
      · rename_i hshort
        rw [if_neg hshort] at hwalk
        split
        · rename_i hlast
          rwa [if_pos hlast] at hwalk
        · rename_i hmore
          rw [if_neg hmore] at hwalk
          split at hwalk
          · rename_i hdirectory
            rw [h _ hdirectory]
            exact ih hwalk
          · cases hwalk
          · cases hwalk

/-- A further name on the way to a directory. -/
theorem walk_append {d : Disk} {name : String} (hup : name ≠ "..") (hshort : isLong name = false)
    {p q : Place} {names : List String} (hwalk : d.walk p names = .ok q)
    (hq : d.at? q = some .directory) : d.walk p (names ++ [name]) = .ok (q ++ [name]) := by
  induction names generalizing p with
  | nil =>
    cases hwalk
    rw [List.nil_append, walk, if_neg hup, hshort, if_neg Bool.false_ne_true, if_pos rfl]
  | cons first rest ih =>
    simp only [walk, List.cons_append] at hwalk ⊢
    split
    · rename_i hup'
      rw [if_pos hup'] at hwalk
      exact ih hwalk
    · rename_i hdown
      rw [if_neg hdown] at hwalk
      split
      · rename_i hlong
        rw [if_pos hlong] at hwalk
        cases hwalk
      · rename_i hshort'
        rw [if_neg hshort'] at hwalk
        rw [if_neg (by simp)]
        by_cases hlast : rest = []
        · rw [if_pos hlast] at hwalk
          cases hwalk
          rw [hq]
          exact ih (by rw [hlast]; rfl)
        · rw [if_neg hlast] at hwalk
          split at hwalk
          · exact ih hwalk
          · cases hwalk
          · cases hwalk

/-! ### Paths -/

/-- A name that stands for a file within a directory. -/
structure IsName (name : String) : Prop where
  slash : '/' ∉ name.toList
  ne_empty : name ≠ ""
  ne_here : name ≠ "."
  ne_up : name ≠ ".."

theorem steps_of_isName {name : String} (h : IsName name) : steps name = [name] := by
  rw [steps, List.splitOn_eq_singleton h.slash]
  simp [h.ne_empty, h.ne_here]

theorem steps_append_slash (directory name : String) :
    steps (directory ++ "/" ++ name) = steps directory ++ steps name := by
  have hlist : (directory ++ "/" ++ name).toList = directory.toList ++ '/' :: name.toList := by
    simp [String.toList_append]
  rw [steps, hlist, List.splitOn_append_cons_self, List.map_append, List.filter_append]
  rfl

/-- The steps of the path of a name within a directory. -/
theorem steps_join (directory : String) {name : String} (h : IsName name) :
    steps (join directory name) = steps directory ++ [name] := by
  rw [join]
  split
  · rename_i hends
    rcases hends with rfl | hends
    · rw [String.empty_append, steps_of_isName h]
      rfl
    · obtain ⟨cs, hcs⟩ := List.getLast?_eq_some_iff.mp hends
      have hdirectory : directory = String.ofList cs ++ "/" := by
        rw [← String.toList_inj]
        simp [hcs]
      have hsteps : steps (String.ofList cs ++ "/") = steps (String.ofList cs) := by
        have hempty := steps_append_slash (String.ofList cs) ""
        rwa [String.append_empty, show steps "" = [] from rfl, List.append_nil] at hempty
      rw [hdirectory, steps_append_slash, steps_of_isName h, hsteps]
  · rw [steps_append_slash, steps_of_isName h]

theorem start_join (d : Disk) {directory : String} (hne : directory ≠ "") (name : String) :
    d.start (join directory name) = d.start directory := by
  have hhead : ∀ more : String, (directory ++ more).toList.head? = directory.toList.head? := by
    intro more
    rw [String.toList_append]
    exact List.head?_append_of_ne_nil _ (by simpa using hne)
  rw [start, start, join]
  split
  · rw [hhead]
  · rw [String.append_assoc, hhead]

theorem resolve_eq_ok_iff {d : Disk} {path : String} {p : Place} : d.resolve path = .ok p ↔
    refused? path = none ∧ path ≠ "" ∧ d.walk (d.start path) (steps path) = .ok p := by
  rw [resolve]
  cases refused? path with
  | some e => simp
  | none => by_cases hempty : path = "" <;> simp [hempty]

/-- A path leads to a directory. -/
structure IsDirectory (d : Disk) (path : String) (p : Place) : Prop where
  resolved : d.resolve path = .ok p
  present : d.at? p = some .directory

/-- The path of a name within a directory is none that is refused. -/
structure Fits (directory name : String) : Prop where
  isName : IsName name
  accepted : refused? (join directory name) = none
  short : isLong name = false

theorem join_ne_empty (directory : String) {name : String} (h : IsName name) :
    join directory name ≠ "" := by
  intro hempty
  have hsteps := steps_join directory h
  rw [hempty] at hsteps
  exact List.append_ne_nil_of_right_ne_nil _ (List.cons_ne_nil _ _) hsteps.symm

/-- **The path of a name** leads into the directory. -/
theorem IsDirectory.resolve_join {d : Disk} {directory : String} {p : Place}
    (h : d.IsDirectory directory p) {name : String} (hname : Fits directory name) :
    d.resolve (join directory name) = .ok (p ++ [name]) := by
  obtain ⟨-, hne, hwalk⟩ := resolve_eq_ok_iff.mp h.resolved
  refine resolve_eq_ok_iff.mpr ⟨hname.accepted, join_ne_empty directory hname.isName, ?_⟩
  rw [start_join d hne, steps_join directory hname.isName]
  exact walk_append hname.isName.ne_up hname.short hwalk h.present

/-- A way that ends in a name ends with it. -/
theorem walk_append_eq_ok {d : Disk} {name : String} (hup : name ≠ "..") {p q r : Place}
    {names : List String} (hwalk : d.walk p names = .ok q)
    (hmore : d.walk p (names ++ [name]) = .ok r) : isLong name = false ∧ r = q ++ [name] := by
  induction names generalizing p with
  | nil =>
    cases hwalk
    rw [List.nil_append, walk, if_neg hup] at hmore
    split at hmore
    · cases hmore
    · rename_i hshort
      rw [if_pos rfl] at hmore
      cases hmore
      exact ⟨by simpa using hshort, rfl⟩
  | cons first rest ih =>
    simp only [walk, List.cons_append] at hwalk hmore
    split at hmore
    · rename_i hup'
      rw [if_pos hup'] at hwalk
      exact ih hwalk hmore
    · rename_i hdown
      rw [if_neg hdown] at hwalk
      split at hmore
      · cases hmore
      · rename_i hshort
        rw [if_neg hshort] at hwalk
        rw [if_neg (by simp)] at hmore
        split at hmore
        · rename_i hdirectory
          by_cases hlast : rest = []
          · rw [if_pos hlast] at hwalk
            cases hwalk
            rw [hlast] at hmore
            exact ih (by rw [hlast]; rfl) (by rw [hlast]; exact hmore)
          · rw [if_neg hlast, hdirectory] at hwalk
            exact ih hwalk hmore
        · cases hmore
        · cases hmore

/-- **A path of a name that leads anywhere** leads into the directory. -/
theorem IsDirectory.of_resolve_join {d : Disk} {directory : String} {p q : Place}
    (h : d.IsDirectory directory p) {name : String} (hname : IsName name)
    (hresolve : d.resolve (join directory name) = .ok q) :
    Fits directory name ∧ q = p ++ [name] := by
  obtain ⟨-, hne, hwalk⟩ := resolve_eq_ok_iff.mp h.resolved
  obtain ⟨haccepted, -, hmore⟩ := resolve_eq_ok_iff.mp hresolve
  rw [start_join d hne, steps_join directory hname] at hmore
  obtain ⟨hshort, hq⟩ := walk_append_eq_ok hname.ne_up hwalk hmore
  exact ⟨⟨hname, haccepted, hshort⟩, hq⟩

/-! ### The names in a directory -/

/-- The name of an entry in the directory at a place. -/
def nameIn (p : Place) (e : Place × Node) : Option String :=
  if e.1.dropLast = p then e.1.getLast? else none

/-- The names in the directory at a place. -/
def childNames (d : Disk) (p : Place) : List String := d.entries.filterMap (nameIn p)

/-- A directory can be read. -/
theorem names_eq_ok_iff {d : Disk} {path : String} {ns : List String} :
    d.names path = .ok ns ↔ ∃ p, d.IsDirectory path p ∧ ns = d.childNames p := by
  constructor
  · intro h
    rw [names] at h
    split at h
    · cases h
    · rename_i p hp
      split at h
      · rename_i hdirectory
        cases h
        exact ⟨p, ⟨hp, hdirectory⟩, rfl⟩
      · cases h
      · cases h
  · rintro ⟨p, ⟨hp, hdirectory⟩, rfl⟩
    rw [names, hp]
    dsimp only
    rw [hdirectory]
    rfl

theorem nameIn_eq_some_iff {p : Place} {e : Place × Node} {name : String} :
    nameIn p e = some name ↔ e.1 = p ++ [name] := by
  rw [nameIn]
  constructor
  · intro h
    split at h
    · rename_i hp
      rw [← hp, List.dropLast_append_getLast? name h]
    · cases h
  · intro h
    rw [h, List.dropLast_concat, if_pos rfl, List.getLast?_concat]

theorem mem_childNames {d : Disk} {p : Place} {name : String} :
    name ∈ d.childNames p ↔ d.at? (p ++ [name]) ≠ none := by
  rw [at?, if_neg (by simp), Ne, List.lookup_eq_none_iff, childNames, List.mem_filterMap]
  constructor
  · rintro ⟨e, hmem, he⟩ hnone
    exact absurd (nameIn_eq_some_iff.mp he).symm (bne_iff_ne.mp (hnone e hmem))
  · intro h
    by_contra hnone
    exact h fun e he => bne_iff_ne.mpr fun heq => hnone ⟨e, he, nameIn_eq_some_iff.mpr heq.symm⟩

/-- The names after a file has been put into the directory. -/
theorem childNames_put (d : Disk) (p : Place) (name : String) (n : Node) :
    (d.put (p ++ [name]) n).childNames p = (d.childNames p).filter (· ≠ name) ++ [name] := by
  have hself : nameIn p (p ++ [name], n) = some name := nameIn_eq_some_iff.mpr rfl
  rw [childNames, childNames, Disk.put, List.filterMap_append, List.filterMap_filter,
    List.filter_filterMap, List.filterMap_cons_some hself, List.filterMap_nil]
  refine congrArg (· ++ [name]) (List.filterMap_congr fun e _ => ?_)
  cases hlast : nameIn p e with
  | none => simp
  | some other =>
    have hplace := nameIn_eq_some_iff.mp hlast
    by_cases hother : other = name
    · simp [hplace, hother, Option.filter]
    · have hne : e.1 ≠ p ++ [name] := by
        rw [hplace]
        simpa using hother
      simp [hne, hother, Option.filter]

/-- A way that leads somewhere leads there as long as the directories stay. -/
theorem resolve_mono {d d' : Disk} (hhome : d'.home = d.home) (hmono : ∀ q,
    d.at? q = some .directory → d'.at? q = some .directory) {path : String} {p : Place}
    (h : d.resolve path = .ok p) : d'.resolve path = .ok p := by
  obtain ⟨haccepted, hne, hwalk⟩ := resolve_eq_ok_iff.mp h
  have hstart : d'.start path = d.start path := by rw [start, start, hhome]
  exact resolve_eq_ok_iff.mpr ⟨haccepted, hne, hstart ▸ walk_mono hmono hwalk⟩

theorem IsDirectory.mono {d d' : Disk} {path : String} {p : Place} (h : d.IsDirectory path p)
    (hhome : d'.home = d.home) (hmono : ∀ q, d.at? q = some .directory →
      d'.at? q = some .directory) : d'.IsDirectory path p :=
  ⟨resolve_mono hhome hmono h.resolved, hmono p h.present⟩

/-- **A file that is put into the directory** leaves it where it was. -/
theorem IsDirectory.put {d : Disk} {path : String} {p : Place} (h : d.IsDirectory path p)
    {name : String} (hfile : d.at? (p ++ [name]) ≠ some .directory) (content : Bytes) :
    (d.put (p ++ [name]) (.file content)).IsDirectory path p := by
  refine h.mono rfl fun q hq => ?_
  rw [at?_put d (by simp), if_neg]
  · exact hq
  · rintro rfl
    exact hfile hq

/-- **A file that is removed** leaves the directory where it was. -/
theorem IsDirectory.erase {d : Disk} {path : String} {p : Place} (h : d.IsDirectory path p)
    {q : Place} (hfile : d.at? q ≠ some .directory) : (d.erase q).IsDirectory path p := by
  refine h.mono rfl fun r hr => ?_
  rw [at?_erase, if_neg]
  · exact hr
  · rintro ⟨rfl, -⟩
    exact hfile hr

/-- A directory that is there need not be made. -/
theorem makeAll_of_walk {d : Disk} {p q : Place} {names : List String}
    (hwalk : d.walk p names = .ok q) (hq : d.at? q = some .directory) :
    d.makeAll p names = (.ok (), d) := by
  induction names generalizing p with
  | nil => rfl
  | cons name rest ih =>
    simp only [walk] at hwalk
    rw [makeAll]
    split
    · rename_i hup
      rw [if_pos hup] at hwalk
      exact ih hwalk
    · rename_i hdown
      rw [if_neg hdown] at hwalk
      split
      · rename_i hlong
        rw [if_pos hlong] at hwalk
        cases hwalk
      · rename_i hshort
        rw [if_neg hshort] at hwalk
        by_cases hlast : rest = []
        · subst hlast
          rw [if_pos rfl] at hwalk
          cases hwalk
          rw [hq]
          rfl
        · rw [if_neg hlast] at hwalk
          split at hwalk
          · exact ih hwalk
          · cases hwalk
          · cases hwalk

theorem IsDirectory.makeDirectory {d : Disk} {path : String} {p : Place}
    (h : d.IsDirectory path p) : d.makeDirectory path = (.ok (), d) := by
  obtain ⟨haccepted, -, hwalk⟩ := resolve_eq_ok_iff.mp h.resolved
  rw [Disk.makeDirectory, haccepted]
  exact makeAll_of_walk hwalk h.present

/-! ### Adding to files -/

/-- What a file holds; one that does not exist holds nothing. -/
def Holds (d : Disk) (q : Place) (content : Bytes) : Prop :=
  d.at? q = some (.file content) ∨ (d.at? q = none ∧ content = [])

/-- **What an addition does**: it fails and changes nothing, or adds to a file. -/
theorem append_cases (d : Disk) (path : String) (more : Bytes) :
    (∃ e, d.append path more = (.error e, { d with faults := d.faults.tail })) ∨
      ∃ q content, d.resolve path = .ok q ∧ d.Holds q content ∧ d.append path more =
        (.ok (), ({ d with faults := d.faults.tail } : Disk).put q (.file (content ++ more))) := by
  simp only [append]
  split
  · exact .inl ⟨_, rfl⟩
  · split
    · exact .inl ⟨_, rfl⟩
    · rename_i q hresolve
      have hresolve' : d.resolve path = .ok q := by
        refine resolve_mono ?_ ?_ hresolve
        · rfl
        · exact fun _ h => h
      split
      · exact .inl ⟨_, rfl⟩
      · rename_i content hfile
        exact .inr ⟨q, content, hresolve', .inl hfile, rfl⟩
      · rename_i hnone
        exact .inr ⟨q, [], hresolve', .inr ⟨hnone, rfl⟩, rfl⟩

/-- **What is added to a file** stands behind what it holds, unless a fault strikes. -/
theorem append_calm {d : Disk} (hcalm : ∀ f ∈ d.faults.head?, f = none) {path : String} {q : Place}
    (hresolve : d.resolve path = .ok q) {content : Bytes} (h : d.Holds q content) (more : Bytes) :
    d.append path more =
      (.ok (), ({ d with faults := d.faults.tail } : Disk).put q (.file (content ++ more))) := by
  have hresolve' : ({ d with faults := d.faults.tail } : Disk).resolve path = .ok q := by
    refine resolve_mono ?_ ?_ hresolve
    · rfl
    · exact fun _ h => h
  have hat : ({ d with faults := d.faults.tail } : Disk).at? q = d.at? q := rfl
  simp only [append]
  split
  · rename_i e hfault
    cases hcalm _ hfault
  · rw [hresolve']
    dsimp only
    rw [hat]
    rcases h with h | ⟨h, rfl⟩
    · rw [h]
    · rw [h]
      rfl

/-- **A medium that does not fail** takes what is added to a file. -/
theorem append_eq {d : Disk} (hfaults : d.faults = []) {path : String} {q : Place}
    (hresolve : d.resolve path = .ok q) {content : Bytes} (h : d.Holds q content) (more : Bytes) :
    d.append path more = (.ok (), d.put q (.file (content ++ more))) := by
  obtain ⟨home, entries, faults⟩ := d
  dsimp only at hfaults
  subst hfaults
  exact append_calm (by simp) hresolve h more

end Disk

end SmsRelay
