import SmsRelay.Proofs.Store.Order

/-!
# Removals that stop half-way

A store that is emptied reads and removes its files one after the other. At the first file that it
cannot read it stops: the files before it are gone, the others stay. The ids of the messages in the
files that are gone remain taken, for the index is cleared at the very end.

## Implementation notes

A message may stand in a file that cannot be read, next to a line that is no message; `standing`
counts it, as it is still there.

Nothing is asked of what stands in the directory, but that it lists each file once and under what is
a name.

## Main results

* `deleteAll_failed`: what a removal that stops leaves.
* `deleteAll_truthful_iff`: when the store still turns away only what stands in its files.
-/

namespace SmsRelay

namespace FileStore

/-! ### What stands in files -/

/-- The message on a line. -/
def onLine (l : Bytes) : Option Message :=
  (Bytes.text? l).bind fun t => (Json.whole Message.reader (Glyph.ofString t)).toOption

/-- The messages that stand in a file, whether the rest of it can be read or not. -/
def standing (d : Disk) (path : String) : List Message :=
  match d.read path with
  | .ok content => (lines content).filterMap onLine
  | .error _ => []

/-- The correlation ids of the messages that stand in files. -/
def idsIn (d : Disk) (paths : List String) : List String :=
  (paths.flatMap (standing d)).map (·.correlationId)

/-- The store turns a message away as stored before only if a message with its id stands in one of
the files. -/
def Truthful (s : FileStore) (d : Disk) : Prop :=
  ∀ m, (s.verdict m).isDuplicate → m.correlationId ∈ idsIn d (s.keyFiles d)

/-- A file of the store can be read. -/
def isReadable (s : FileStore) (d : Disk) (name : String) : Bool :=
  (readFile d (Disk.join s.directory name)).isOk

/-- The files before the first that cannot be read. -/
def readable (s : FileStore) (d : Disk) (names : List String) : List String :=
  names.takeWhile (s.isReadable d)

/-- The files from the first on that cannot be read. -/
def unreadable (s : FileStore) (d : Disk) (names : List String) : List String :=
  names.dropWhile (s.isReadable d)

variable {s : FileStore} {d d' : Disk} {p : Place} {name : String} {names : List String}

theorem isReadable_iff : s.isReadable d name ↔
    ∃ ms, readFile d (Disk.join s.directory name) = .ok ms := by
  rw [isReadable]
  cases readFile d (Disk.join s.directory name) with
  | error e => simp [Except.isOk, Except.toBool]
  | ok ms => simp [Except.isOk, Except.toBool]

theorem read_eq_ok_iff {path : String} {content : Bytes} : d.read path = .ok content ↔
    ∃ q, d.resolve path = .ok q ∧ d.at? q = some (.file content) := by
  rw [Disk.read, Disk.find]
  cases d.resolve path with
  | error e => simp
  | ok q =>
    dsimp only
    cases hnode : d.at? q with
    | none => simp [hnode]
    | some node => cases node <;> simp [hnode]

/-- What is read stands on the lines. -/
theorem mem_onLine_of_readLines {path : String} {ls : List Bytes} {ms : List Message}
    (h : readLines path ls = .ok ms) {m : Message} (hm : m ∈ ms) : m ∈ ls.filterMap onLine := by
  induction ls generalizing ms with
  | nil =>
    cases h
    exact absurd hm List.not_mem_nil
  | cons l ls ih =>
    rw [List.mem_filterMap]
    have hrest : ∀ {rest}, readLines path ls = .ok rest → m ∈ rest →
        ∃ l' ∈ l :: ls, onLine l' = some m := by
      intro rest hread hm
      obtain ⟨l', hl', hmessage⟩ := List.mem_filterMap.mp (ih hread hm)
      exact ⟨l', List.mem_cons_of_mem l hl', hmessage⟩
    rw [readLines] at h
    split at h
    · cases h
    · rename_i t htext
      split at h
      · exact hrest h hm
      · split at h
        · rename_i first hfirst
          obtain ⟨rest, hread, rfl⟩ := map_eq_ok h
          rcases List.mem_cons.mp hm with rfl | hm
          · refine ⟨l, List.mem_cons_self, ?_⟩
            rw [onLine, htext, Option.bind_some, hfirst]
            rfl
          · exact hrest hread hm
        · cases h

/-- **What is read from a file stands in it.** -/
theorem mem_standing_of_read {path : String} {ms : List Message} (h : readFile d path = .ok ms)
    {m : Message} (hm : m ∈ ms) : m ∈ standing d path := by
  obtain ⟨q, content, hresolve, hfile, hlines⟩ := readFile_eq_ok_iff.mp h
  rw [standing, read_eq_ok_iff.mpr ⟨q, hresolve, hfile⟩]
  exact mem_onLine_of_readLines hlines hm

/-- What stands under a name of the directory depends on what is at its place. -/
theorem mem_standing_iff (hp : d.IsDirectory s.directory p) (hname : Disk.IsName name)
    {m : Message} : m ∈ standing d (Disk.join s.directory name) ↔
      Disk.Fits s.directory name ∧ ∃ content, d.at? (p ++ [name]) = some (.file content) ∧
        m ∈ (lines content).filterMap onLine := by
  rw [standing]
  constructor
  · intro h
    split at h
    · rename_i content hread
      obtain ⟨q, hresolve, hfile⟩ := read_eq_ok_iff.mp hread
      obtain ⟨hfits, rfl⟩ := hp.of_resolve_join hname hresolve
      exact ⟨hfits, content, hfile, h⟩
    · cases h
  · rintro ⟨hfits, content, hfile, hm⟩
    rw [read_eq_ok_iff.mpr ⟨_, hp.resolve_join hfits, hfile⟩]
    exact hm

/-! ### The removal -/

/-- A file is read from what stands at its place. -/
theorem isReadable_of_at? (hp : d.IsDirectory s.directory p) (hp' : d'.IsDirectory s.directory p)
    (hname : Disk.IsName name) (hat : d'.at? (p ++ [name]) = d.at? (p ++ [name]))
    (h : s.isReadable d' name) : s.isReadable d name := by
  obtain ⟨ms, hms⟩ := isReadable_iff.mp h
  obtain ⟨q, content, hresolve, hfile, hlines⟩ := readFile_eq_ok_iff.mp hms
  obtain ⟨hfits, rfl⟩ := hp'.of_resolve_join hname hresolve
  exact isReadable_iff.mpr ⟨ms, readFile_eq_ok_iff.mpr
    ⟨_, content, hp.resolve_join hfits, hat ▸ hfile, hlines⟩⟩

/-- **Files are removed** up to one that cannot be read. -/
theorem removeAll_append {paths more : List String} {count n : ℕ}
    (h : removeAll d count paths = (.ok n, d')) :
    removeAll d count (paths ++ more) = removeAll d' n more := by
  induction paths generalizing d count with
  | nil =>
    cases h
    rfl
  | cons path paths ih =>
    rw [removeAll] at h
    rw [List.cons_append, removeAll]
    split at h
    · cases h
    · split at h
      · cases h
      · exact ih h

theorem readable_append_unreadable (s : FileStore) (d : Disk) (names : List String) :
    s.readable d names ++ s.unreadable d names = names :=
  List.takeWhile_append_dropWhile

theorem readable_sublist : (s.readable d names).Sublist names := by
  rw [readable]
  exact List.takeWhile_sublist _

theorem read_of_mem_readable (hname : name ∈ s.readable d names) :
    readFile d (Disk.join s.directory name) = .ok (s.held d name) := by
  rw [readable] at hname
  obtain ⟨ms, hms⟩ := isReadable_iff.mp (List.mem_takeWhile_imp hname)
  rw [hms, held_of_read hms]

/-- **What a removal leaves**: the files from the first on that cannot be read. -/
theorem removeAll_snd (hnodup : names.Nodup) (hnamed : ∀ name ∈ names, Disk.IsName name)
    (hp : d.IsDirectory s.directory p) (count : ℕ) :
    (removeAll d count (names.map (Disk.join s.directory))).2.IsDirectory s.directory p ∧
      ∀ name, (removeAll d count (names.map (Disk.join s.directory))).2.at? (p ++ [name]) =
        if name ∈ s.readable d names then none else d.at? (p ++ [name]) := by
  have hsplit := s.readable_append_unreadable d names
  have hfits : ∀ name ∈ s.readable d names, Disk.Fits s.directory name := by
    intro name hname
    obtain ⟨q, -, hresolve, -⟩ := readFile_eq_ok_iff.mp (read_of_mem_readable hname)
    exact (hp.of_resolve_join (hnamed name (readable_sublist.subset hname)) hresolve).1
  have hreadable : (s.readable d names).Nodup := readable_sublist.nodup hnodup
  obtain ⟨d', hremove, hp', hat⟩ := removeAll_eq hreadable hfits hp
    (fun name => read_of_mem_readable) count
  suffices hsnd : (removeAll d count (names.map (Disk.join s.directory))).2 = d' by
    rw [hsnd]
    exact ⟨hp', hat⟩
  rw [← hsplit, List.map_append, removeAll_append hremove]
  cases hrest : s.unreadable d names with
  | nil => rfl
  | cons name rest =>
    -- the first of the others could not be read before, and nothing has changed for it
    have hmem : name ∈ names := by
      rw [← hsplit, hrest]
      exact List.mem_append_right _ List.mem_cons_self
    have hnot : name ∉ s.readable d names := by
      rw [← hsplit, hrest] at hnodup
      exact fun hin => List.disjoint_of_nodup_append hnodup hin List.mem_cons_self
    have hunread : ¬ s.isReadable d name := by
      have hhead := List.head?_dropWhile_not (s.isReadable d) names
      rw [unreadable] at hrest
      rw [hrest] at hhead
      simpa using hhead
    have hunread' : ¬ s.isReadable d' name := fun h =>
      hunread (isReadable_of_at? hp hp' (hnamed name hmem) (by rw [hat, if_neg hnot]) h)
    rw [List.map_cons, removeAll]
    split
    · rfl
    · rename_i ms hms
      exact (hunread' (isReadable_iff.mpr ⟨ms, hms⟩)).elim

/-- **A removal that stops** forgets no id and leaves the files from the first on that cannot be
read. -/
theorem deleteAll_failed {e : StoreError} (hp : d.IsDirectory s.directory p)
    (hnodup : (keyNames d p).Nodup) (hnamed : ∀ name ∈ keyNames d p, Disk.IsName name)
    (hfailed : (s.deleteAll d).1 = .error e) :
    (s.deleteAll d).2.1 = s ∧ (s.deleteAll d).2.2.IsDirectory s.directory p ∧
      ∀ name, (s.deleteAll d).2.2.at? (p ++ [name]) =
        if name ∈ s.readable d (keyNames d p) then none else d.at? (p ++ [name]) := by
  obtain ⟨hp', hat⟩ := removeAll_snd hnodup hnamed hp 0
  rw [deleteAll, keyFiles_eq hp] at hfailed ⊢
  rcases hremove : removeAll d 0 ((keyNames d p).map (Disk.join s.directory)) with ⟨r, d'⟩
  rw [hremove] at hfailed hp' hat
  cases r with
  | ok n => cases hfailed
  | error e => exact ⟨rfl, hp', hat⟩

theorem mem_idsIn {id : String} {paths : List String} :
    id ∈ idsIn d paths ↔ ∃ path ∈ paths, ∃ m ∈ standing d path, m.correlationId = id := by
  rw [idsIn, List.map_flatMap]
  simp

/-- What stands in the files that are left is what stood in them. -/
theorem mem_idsIn_left (hp : d.IsDirectory s.directory p) (hp' : d'.IsDirectory s.directory p)
    (hnodup : (keyNames d p).Nodup) (hnamed : ∀ name ∈ keyNames d p, Disk.IsName name)
    (hat : ∀ name, d'.at? (p ++ [name]) =
      if name ∈ s.readable d (keyNames d p) then none else d.at? (p ++ [name])) {id : String} :
    id ∈ idsIn d' (s.keyFiles d') ↔
      id ∈ idsIn d ((s.unreadable d (keyNames d p)).map (Disk.join s.directory)) := by
  have hsplit := s.readable_append_unreadable d (keyNames d p)
  have hapart : ∀ name ∈ s.unreadable d (keyNames d p), name ∉ s.readable d (keyNames d p) := by
    intro name hleft hgone
    rw [← hsplit] at hnodup
    exact List.disjoint_of_nodup_append hnodup hgone hleft
  -- a file that is left stands where it stood
  have hnames : ∀ name, name ∈ keyNames d' p ↔ name ∈ s.unreadable d (keyNames d p) := by
    intro name
    rw [mem_keyNames, hat]
    constructor
    · rintro ⟨hkey, hthere⟩
      split at hthere
      · exact (hthere rfl).elim
      · rename_i hnot
        have hname : name ∈ keyNames d p := mem_keyNames.mpr ⟨hkey, hthere⟩
        rw [← hsplit, List.mem_append] at hname
        exact hname.resolve_left hnot
    · intro hleft
      have hname : name ∈ keyNames d p := by
        rw [← hsplit]
        exact List.mem_append_right _ hleft
      rw [if_neg (hapart name hleft)]
      exact mem_keyNames.mp hname
  have hstanding : ∀ name ∈ s.unreadable d (keyNames d p), ∀ m,
      m ∈ standing d' (Disk.join s.directory name) ↔
        m ∈ standing d (Disk.join s.directory name) := by
    intro name hleft m
    have hname : Disk.IsName name := by
      refine hnamed name ?_
      rw [← hsplit]
      exact List.mem_append_right _ hleft
    rw [mem_standing_iff hp' hname, mem_standing_iff hp hname, hat, if_neg (hapart name hleft)]
  rw [keyFiles_eq hp', mem_idsIn, mem_idsIn]
  simp only [List.mem_map, exists_exists_and_eq_and, hnames]
  refine exists_congr fun name => and_congr_right fun hleft => exists_congr fun m => ?_
  rw [hstanding name hleft]

/-! ### What is turned away -/

/-- The store says that a message is stored already exactly if its id is taken. -/
theorem isDuplicate_verdict_iff (hunique : s.unique) {m : Message} :
    (s.verdict m).isDuplicate ↔
      isKey m.phone ∧ m.correlationId ≠ "" ∧ m.correlationId ∈ s.ids := by
  rw [verdict, isTracked, hunique]
  cases hkey : isKey m.phone with
  | false => simp [Verdict.isDuplicate]
  | true =>
    by_cases hid : m.correlationId = ""
    · simp [Verdict.isDuplicate, hid]
    · by_cases htaken : m.correlationId ∈ s.ids
      · simp [Verdict.isDuplicate, hid, htaken]
      · simp [Verdict.isDuplicate, hid, htaken]

/-- Any id that is taken may come again. -/
theorem truthful_iff (hunique : s.unique) : s.Truthful d ↔
    ∀ id ∈ s.ids, id ≠ "" → id ∈ idsIn d (s.keyFiles d) := by
  constructor
  · intro h id hid hne
    refine h { Message.blank with correlationId := id, phone := "0" } ?_
    have hkey : isKey "0" := by decide
    exact (isDuplicate_verdict_iff hunique).mpr ⟨hkey, hne, hid⟩
  · intro h m hm
    obtain ⟨-, hne, hid⟩ := (isDuplicate_verdict_iff hunique).mp hm
    exact h _ hid hne

/-- **A removal that stops** leaves a store that turns away only what stands in its files exactly if
every id that was taken stands in one of the files from the first on that cannot be read. -/
theorem deleteAll_truthful_iff {e : StoreError} (hunique : s.unique)
    (hp : d.IsDirectory s.directory p) (hnodup : (d.childNames p).Nodup)
    (hnamed : ∀ name ∈ d.childNames p, isKeyFile name → Disk.IsName name)
    (hfailed : (s.deleteAll d).1 = .error e) :
    (s.deleteAll d).2.1.Truthful (s.deleteAll d).2.2 ↔ ∀ id ∈ s.ids, id ≠ "" →
      id ∈ idsIn d ((s.unreadable d (keyNames d p)).map (Disk.join s.directory)) := by
  have hkeys : (keyNames d p).Nodup := (List.mergeSort_perm _ _).nodup_iff.mpr (hnodup.filter _)
  have hnames : ∀ name ∈ keyNames d p, Disk.IsName name := by
    intro name hname
    obtain ⟨hkey, hthere⟩ := mem_keyNames.mp hname
    exact hnamed name (Disk.mem_childNames.mpr hthere) hkey
  obtain ⟨hsame, hp', hat⟩ := deleteAll_failed hp hkeys hnames hfailed
  rw [hsame, truthful_iff hunique]
  refine forall₂_congr fun id _ => imp_congr_right fun _ => ?_
  exact mem_idsIn_left hp hp' hkeys hnames hat

namespace Sample

/-- A message to a phone number. -/
def kept (phone : String) : Message :=
  { Message.blank with correlationId := "corr-1", phone := phone }

/-- A store that has taken the message. -/
def store : FileStore := ⟨"data", true, ["corr-1"]⟩

/-- A disk on which the files of two phone numbers have these contents. -/
def disk (first second : Bytes) : Disk where
  home := ["home"]
  entries := (found first).entries ++ [(["home", "data", "8.jsonl"], .file second)]

/-- A line that is no message. -/
def damaged : Bytes := utf8 "\x7b\n"

variable (first second : Bytes)

theorem isDirectory_disk : (disk first second).IsDirectory store.directory ["home", "data"] :=
  ⟨rfl, rfl⟩

theorem childNames_disk :
    (disk first second).childNames ["home", "data"] = ["+7.jsonl", "8.jsonl"] := rfl

theorem keyNames_disk :
    keyNames (disk first second) ["home", "data"] = ["+7.jsonl", "8.jsonl"] := by
  have hkeys : ["+7.jsonl", "8.jsonl"].filter isKeyFile = ["+7.jsonl", "8.jsonl"] := by decide
  have hsorted : ["+7.jsonl", "8.jsonl"].Pairwise fun a b => decide (a ≤ b) := by decide +kernel
  rw [keyNames, childNames_disk, hkeys, List.mergeSort_of_pairwise hsorted]

theorem fits {name : String} (hname : name = "+7.jsonl" ∨ name = "8.jsonl") :
    Disk.Fits store.directory name := by
  have hfirst : isKey "+7" := by decide
  have hsecond : isKey "8" := by decide
  rcases hname with rfl | rfl
  · exact ⟨isName_of_isKey hfirst, by decide +kernel, by decide +kernel⟩
  · exact ⟨isName_of_isKey hsecond, by decide +kernel, by decide +kernel⟩

theorem isName_of_mem {name : String} (hname : name ∈ (disk first second).childNames
    ["home", "data"]) : Disk.IsName name := by
  rw [childNames_disk] at hname
  exact (fits (by simpa using hname)).isName

theorem keyFiles_disk :
    store.keyFiles (disk first second) = ["data/+7.jsonl", "data/8.jsonl"] := by
  rw [keyFiles_eq (isDirectory_disk first second), keyNames_disk]
  decide

theorem at?_first : (disk first second).at? ["home", "data", "+7.jsonl"] = some (.file first) := rfl

theorem at?_second : (disk first second).at? ["home", "data", "8.jsonl"] = some (.file second) :=
  rfl

theorem at?_found : (found first).at? ["home", "data", "+7.jsonl"] = some (.file first) := rfl

/-- The file of the message can be read. -/
theorem readFile_kept {d : Disk} {phone name path : String}
    (hp : d.IsDirectory "data" ["home", "data"]) (hname : name = "+7.jsonl" ∨ name = "8.jsonl")
    (hpath : Disk.join "data" name = path)
    (hfile : d.at? ["home", "data", name] = some (.file (line (kept phone)))) :
    readFile d path = .ok [kept phone] := by
  have hcreated : Message.blank.createdAt.isValid := by decide
  rw [← hpath]
  refine readFile_node hp (fits hname) ?_ ?_ (by simp)
  · rw [node?, if_neg (by simp), List.flatMap_singleton]
    exact hfile
  · intro m hm
    rw [List.mem_singleton.mp hm]
    exact hcreated

/-- The store is the one that finds the message when it is opened. -/
theorem load_kept : load ⟨"data", true, []⟩ (found (line (kept "+7"))) =
    (.ok (), store, found (line (kept "+7"))) := by
  have hp : (found (line (kept "+7"))).IsDirectory "data" ["home", "data"] := ⟨rfl, rfl⟩
  have hkeys : ["+7.jsonl"].filter isKeyFile = ["+7.jsonl"] := by decide
  have hfiles : (⟨"data", true, []⟩ : FileStore).keyFiles (found (line (kept "+7"))) =
      ["data/+7.jsonl"] := by
    rw [keyFiles_eq hp, keyNames, show (found (line (kept "+7"))).childNames ["home", "data"] =
      ["+7.jsonl"] from rfl, hkeys, List.mergeSort_singleton]
    decide
  have hread : readFile (found (line (kept "+7"))) "data/+7.jsonl" = .ok [kept "+7"] :=
    readFile_kept hp (.inl rfl) (by decide) (at?_found _)
  have hids : idsOf ([kept "+7"] ++ []) = ["corr-1"] := by decide
  have hall : readAll (found (line (kept "+7"))) ["data/+7.jsonl"] = .ok ([kept "+7"] ++ []) := by
    rw [readAll, hread]
    rfl
  rw [load, hp.makeDirectory]
  simp only [hfiles, hall, hids, store]

end Sample

/-- A damaged file that comes first keeps everything in its place. -/
theorem deleteAll_truthful_damaged_first :
    let d := Sample.disk Sample.damaged (line (Sample.kept "8"))
    Sample.store.deleteAll d = (.error (.format "data/+7.jsonl: malformed text"), Sample.store, d) ∧
      (Sample.store.deleteAll d).2.1.Truthful (Sample.store.deleteAll d).2.2 := by
  intro d
  have hdamaged :
      readFile d "data/+7.jsonl" = .error (.format "data/+7.jsonl: malformed text") := by
    decide +kernel
  have hdelete : Sample.store.deleteAll d =
      (.error (.format "data/+7.jsonl: malformed text"), Sample.store, d) := by
    rw [deleteAll, Sample.keyFiles_disk, removeAll, hdamaged]
  have hread : readFile d "data/8.jsonl" = .ok [Sample.kept "8"] :=
    Sample.readFile_kept (Sample.isDirectory_disk _ _) (.inr rfl) (by decide)
      (Sample.at?_second _ _)
  refine ⟨hdelete, (deleteAll_truthful_iff rfl (Sample.isDirectory_disk _ _) (by decide)
    (fun name hname _ => Sample.isName_of_mem _ _ hname) (congrArg Prod.fst hdelete)).mpr ?_⟩
  intro id hid _
  obtain rfl : id = "corr-1" := List.mem_singleton.mp hid
  rw [Sample.keyNames_disk, mem_idsIn]
  exact ⟨"data/8.jsonl", by decide +kernel, _, mem_standing_of_read hread List.mem_cons_self, rfl⟩

/-- **A message that is gone and cannot come back**: its file has been removed when the next one
turns out to be damaged. -/
theorem deleteAll_untruthful :
    let d := Sample.disk (line (Sample.kept "+7")) Sample.damaged
    load ⟨"data", true, []⟩ (found (line (Sample.kept "+7"))) =
        (.ok (), Sample.store, found (line (Sample.kept "+7"))) ∧
      Sample.store.deleteAll d = (.error (.format "data/8.jsonl: malformed text"), Sample.store,
        d.erase ["home", "data", "+7.jsonl"]) ∧
      ((Store.files Sample.store d).deleteAll.2.insert (Sample.kept "+7")).1 =
        .error (.format "index 0: duplicate correlationId 'corr-1'") ∧
      ¬ (Sample.store.deleteAll d).2.1.Truthful (Sample.store.deleteAll d).2.2 := by
  intro d
  have hread : readFile d "data/+7.jsonl" = .ok [Sample.kept "+7"] :=
    Sample.readFile_kept (Sample.isDirectory_disk _ _) (.inl rfl) (by decide) (Sample.at?_first _ _)
  have hremove : d.remove "data/+7.jsonl" = .ok (d.erase ["home", "data", "+7.jsonl"]) := by
    have hresolve := (Sample.isDirectory_disk (line (Sample.kept "+7")) Sample.damaged).resolve_join
      (Sample.fits (.inl rfl))
    rw [show Disk.join Sample.store.directory "+7.jsonl" = "data/+7.jsonl" by decide] at hresolve
    rw [Disk.remove, hresolve]
    rfl
  have hdamaged : readFile (d.erase ["home", "data", "+7.jsonl"]) "data/8.jsonl" =
      .error (.format "data/8.jsonl: malformed text") := by
    decide +kernel
  have hdelete : Sample.store.deleteAll d = (.error (.format "data/8.jsonl: malformed text"),
      Sample.store, d.erase ["home", "data", "+7.jsonl"]) := by
    rw [deleteAll, Sample.keyFiles_disk, removeAll, hread]
    dsimp only
    rw [hremove]
    dsimp only
    rw [removeAll, hdamaged]
  refine ⟨Sample.load_kept, hdelete, ?_, fun h => ?_⟩
  · rw [Store.deleteAll, hdelete]
    decide +kernel
  · rw [hdelete, truthful_iff rfl] at h
    have hid := h "corr-1" (by decide) (by decide)
    revert hid
    decide +kernel

end FileStore

end SmsRelay
