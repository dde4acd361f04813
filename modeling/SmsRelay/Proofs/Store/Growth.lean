import SmsRelay.Proofs.Store.Endings
import SmsRelay.Proofs.Store.Restart

/-!
# Files that were there before

A store that is opened takes over the files that it finds in its directory, whoever has written
them, and adds to them what comes. All it asks of a file is that it can read it. That is too little:
a file may end in a line without a line feed, and the next message is then added to this very line.

## Implementation notes

An addition that fails writes nothing here, so batches of which some messages cannot be written are
not excluded.

## Main results

* `exists_grown`: what a batch does to the files.
* `Grown.readAll_iff`: the files can still be read if those that have grown were finished.
* `insertBatch_undamaged_iff`: a batch does no damage exactly in this case.
-/

namespace SmsRelay

namespace FileStore

/-! ### Files that grow -/

/-- The messages whose file stands at a place, when the directory stands at `p`. -/
def destined (p : Place) (ms : List Message) (q : Place) : List Message :=
  ms.filter (p ++ [fileName ·] = q)

/-- The files of the directory at `p` have grown by messages. Nothing else has changed. -/
structure Grown (d d' : Disk) (p : Place) (ms : List Message) : Prop where
  home : d'.home = d.home
  directory : ∀ q, d.at? q = some .directory → d'.at? q = some .directory
  file : ∀ q content, d.at? q = some (.file content) →
    d'.at? q = some (.file (content ++ (destined p ms q).flatMap line))
  fresh : ∀ q, d.at? q = none → d'.at? q = node? (destined p ms q)

variable {s : FileStore} {d d' d'' : Disk} {p q : Place} {ms ms' b : List Message} {m : Message}
  {path : String} {old : List Message}

theorem destined_append : destined p (ms ++ ms') q = destined p ms q ++ destined p ms' q :=
  List.filter_append ..

theorem destined_name (name : String) : destined p ms (p ++ [name]) = inFile ms name := by
  refine List.filter_congr fun m _ => ?_
  rw [decide_eq_decide, List.append_right_inj, List.singleton_inj]

theorem Grown.refl (d : Disk) (faults : List (Option DiskError)) (p : Place) :
    Grown d { d with faults := faults } p [] where
  home := rfl
  directory _ h := h
  file q content h := by
    rw [destined, List.filter_nil, List.flatMap_nil, List.append_nil]
    exact h
  fresh _ h := h

theorem Grown.trans (h : Grown d d' p ms) (h' : Grown d' d'' p ms') :
    Grown d d'' p (ms ++ ms') where
  home := h'.home.trans h.home
  directory q hq := h'.directory q (h.directory q hq)
  file q content hq := by
    rw [destined_append, List.flatMap_append, ← List.append_assoc]
    exact h'.file q _ (h.file q content hq)
  fresh q hq := by
    have hfirst := h.fresh q hq
    rw [destined_append]
    rw [node?] at hfirst
    split at hfirst
    · rename_i hempty
      rw [hempty]
      exact h'.fresh q hfirst
    · rename_i hsome
      rw [h'.file q _ hfirst, ← List.flatMap_append, node?,
        if_neg (List.append_ne_nil_of_left_ne_nil hsome _)]

/-- **A line that is written** makes its file grow. -/
theorem grown_put {content : Bytes} (hholds : d.Holds (p ++ [fileName m]) content)
    (faults : List (Option DiskError)) :
    Grown d (({ d with faults := faults } : Disk).put (p ++ [fileName m])
      (.file (content ++ line m))) p [m] := by
  have hput := fun q => ({ d with faults := faults } : Disk).at?_put (p := p ++ [fileName m])
    (by simp) (.file (content ++ line m)) q
  have hother : ∀ q, q ≠ p ++ [fileName m] → destined p [m] q = [] := by
    intro q hne
    rw [destined, List.filter_cons_of_neg (by simpa using hne.symm), List.filter_nil]
  have hself : destined p [m] (p ++ [fileName m]) = [m] := by
    rw [destined, List.filter_cons_of_pos (by simp), List.filter_nil]
  refine ⟨rfl, fun q hq => ?_, fun q old hq => ?_, fun q hq => ?_⟩
  · rw [hput, if_neg]
    · exact hq
    · rintro rfl
      rcases hholds with hfile | ⟨hnone, -⟩
      · cases hq.symm.trans hfile
      · cases hq.symm.trans hnone
  · rw [hput]
    by_cases heq : q = p ++ [fileName m]
    · subst heq
      rw [if_pos rfl, hself]
      rcases hholds with hfile | ⟨hnone, -⟩
      · cases hq.symm.trans hfile
        simp
      · cases hq.symm.trans hnone
    · rw [if_neg heq, hother q heq, List.flatMap_nil, List.append_nil]
      exact hq
  · rw [hput]
    by_cases heq : q = p ++ [fileName m]
    · subst heq
      rw [if_pos rfl, hself]
      rcases hholds with hfile | ⟨-, rfl⟩
      · cases hq.symm.trans hfile
      · simp [node?]
    · rw [if_neg heq, hother q heq]
      exact hq

theorem Grown.isDirectory (h : Grown d d' p ms) (hp : d.IsDirectory path q) :
    d'.IsDirectory path q :=
  hp.mono h.home h.directory

/-- The files of some messages can be named. -/
def Nameable (directory : String) (ms : List Message) : Prop :=
  ∀ m ∈ ms, isKey m.phone ∧ Disk.Fits directory (fileName m)

/-- **What a batch does to the files**: they grow by the messages that are added. -/
theorem exists_grown (hp : d.IsDirectory s.directory p) (b : List Message) :
    ∃ s' d', ((Store.files s d).insertBatch b).2 = .files s' d' ∧
      s'.directory = s.directory ∧ Grown d d' p ((Store.files s d).added b) ∧
      Nameable s.directory ((Store.files s d).added b) := by
  rw [Store.insertBatch_eq]
  induction b generalizing s d with
  | nil => exact ⟨s, d, rfl, rfl, .refl d d.faults p, nofun⟩
  | cons m b ih =>
    rw [List.foldl_cons, Store.added_cons, Store.put]
    rcases put_cases s d m with ⟨hnot, faults, hput⟩ | ⟨hkey, q, content, hresolve, hholds, hput⟩
    · rw [hput, if_neg hnot]
      have hgrown := Grown.refl d faults p
      obtain ⟨s', d', hstore, hdirectory, hrest, hnames⟩ := ih (hgrown.isDirectory hp)
      exact ⟨s', d', hstore, hdirectory, hgrown.trans hrest, hnames⟩
    · rw [hput, if_pos rfl]
      obtain ⟨hfits, rfl⟩ := hp.of_resolve_join (isName_of_isKey hkey) hresolve
      have hgrown := grown_put (m := m) hholds d.faults.tail
      have hdirectory := directory_accept s m
      obtain ⟨s', d', hstore, hdirectory', hrest, hnames⟩ :=
        ih (s := s.accept m) (hdirectory ▸ hgrown.isDirectory hp)
      refine ⟨s', d', hstore, hdirectory'.trans hdirectory, hgrown.trans hrest, ?_⟩
      refine List.forall_mem_cons.mpr ⟨⟨hkey, hfits⟩, ?_⟩
      rw [← hdirectory]
      exact hnames

/-! ### Reading what has grown -/

/-- The files of some messages are finished, as far as there are any. -/
def FinishedFor (directory : String) (d : Disk) (ms : List Message) : Prop :=
  ∀ m ∈ ms, ∀ content ∈ (d.read (Disk.join directory (fileName m))).toOption, IsFinished content

instance (directory : String) (d : Disk) (ms : List Message) :
    Decidable (FinishedFor directory d ms) :=
  inferInstanceAs (Decidable (∀ m ∈ ms,
    ∀ content ∈ (d.read (Disk.join directory (fileName m))).toOption, IsFinished content))

theorem mem_destined : m ∈ destined p ms q ↔ m ∈ ms ∧ p ++ [fileName m] = q := by
  rw [destined, List.mem_filter, decide_eq_true_iff]

/-- What stands in a file. -/
theorem mem_read_iff (hp : d.IsDirectory s.directory p) {name : String}
    (hfits : Disk.Fits s.directory name) {content : Bytes} :
    content ∈ (d.read (Disk.join s.directory name)).toOption ↔
      d.at? (p ++ [name]) = some (.file content) := by
  rw [Disk.read, Disk.find, hp.resolve_join hfits]
  dsimp only
  cases d.at? (p ++ [name]) with
  | none => simp [Except.toOption]
  | some node => cases node <;> simp [Except.toOption]

/-- **A file that could be read** holds the messages that it has grown by. -/
theorem Grown.readFile (h : Grown d d' p ms) (hp : d.IsDirectory s.directory p)
    (hnames : Nameable s.directory ms) (hfinished : FinishedFor s.directory d ms)
    (hcreated : ∀ m ∈ ms, m.createdAt.isValid) (hread : readFile d path = .ok old) :
    ∃ q, d.resolve path = .ok q ∧ readFile d' path = .ok (old ++ destined p ms q) := by
  obtain ⟨q, content, hresolve, hfile, hlines⟩ := readFile_eq_ok_iff.mp hread
  refine ⟨q, hresolve, readFile_eq_ok_iff.mpr
    ⟨q, _, Disk.resolve_mono h.home h.directory hresolve, h.file q content hfile, ?_⟩⟩
  by_cases hnone : destined p ms q = []
  · rw [hnone, List.flatMap_nil, List.append_nil, List.append_nil]
    exact hlines
  · obtain ⟨m, hm⟩ := List.exists_mem_of_ne_nil _ hnone
    obtain ⟨hin, rfl⟩ := mem_destined.mp hm
    exact readLines_append_lines hlines
      (hfinished m hin content ((mem_read_iff hp (hnames m hin).2).mpr hfile))
      fun k hk => hcreated k (mem_destined.mp hk).1

/-- **A file that was not there** holds the messages that have come. -/
theorem Grown.readFile_fresh (h : Grown d d' p ms) (hp : d.IsDirectory s.directory p)
    (hnames : Nameable s.directory ms) (hcreated : ∀ m ∈ ms, m.createdAt.isValid) {name : String}
    (hnone : d.at? (p ++ [name]) = none) (hsome : inFile ms name ≠ []) :
    FileStore.readFile d' (Disk.join s.directory name) = .ok (inFile ms name) := by
  obtain ⟨m, hm⟩ := List.exists_mem_of_ne_nil _ hsome
  obtain ⟨hm, heq⟩ := List.mem_filter.mp hm
  have hfits := (hnames m hm).2
  rw [of_decide_eq_true heq] at hfits
  have hnode := h.fresh _ hnone
  rw [destined_name] at hnode
  exact readFile_node (h.isDirectory hp) hfits hnode
    (fun k hk => hcreated k (List.mem_filter.mp hk).1) hsome

/-- All files are read if each of them is. -/
theorem readAll_iff {paths : List String} : (∃ l, readAll d paths = .ok l) ↔
    ∀ path ∈ paths, ∃ l, FileStore.readFile d path = .ok l := by
  induction paths with
  | nil => exact ⟨fun _ _ h => absurd h List.not_mem_nil, fun _ => ⟨[], rfl⟩⟩
  | cons path paths ih =>
    rw [List.forall_mem_cons, ← ih]
    constructor
    · rintro ⟨l, hl⟩
      obtain ⟨first, hfirst, hl⟩ := bind_eq_ok hl
      obtain ⟨rest, hrest, -⟩ := bind_eq_ok hl
      exact ⟨⟨first, hfirst⟩, rest, hrest⟩
    · rintro ⟨⟨first, hfirst⟩, rest, hrest⟩
      refine ⟨first ++ rest, ?_⟩
      rw [readAll, hfirst, hrest]
      rfl

/-- **All files can still be read** if those that have grown were finished. -/
theorem Grown.readAll_iff (h : Grown d d' p ms) (hp : d.IsDirectory s.directory p)
    (hnames : Nameable s.directory ms) (hcreated : ∀ m ∈ ms, m.createdAt.isValid)
    (hread : ∃ l, readAll d (s.keyFiles d) = .ok l) :
    (∃ l, readAll d' (s.keyFiles d') = .ok l) ↔ FinishedFor s.directory d ms := by
  rw [keyFiles_eq hp, FileStore.readAll_iff, List.forall_mem_map] at hread
  rw [keyFiles_eq (h.isDirectory hp), FileStore.readAll_iff, List.forall_mem_map]
  constructor
  · intro hread' m hm content hcontent
    have hfile := (mem_read_iff hp (hnames m hm).2).mp hcontent
    have hkey : isKeyFile (fileName m) := isKeyFile_of_isKey (hnames m hm).1
    obtain ⟨old, hold⟩ := hread _ (mem_keyNames.mpr ⟨hkey, by rw [hfile]; nofun⟩)
    obtain ⟨new, hnew⟩ := hread' _ (mem_keyNames.mpr ⟨hkey, by rw [h.file _ _ hfile]; nofun⟩)
    -- what is read is what stands in the file
    obtain ⟨q, content₁, hq, hfile₁, hlines⟩ := readFile_eq_ok_iff.mp hold
    cases hq.symm.trans (hp.resolve_join (hnames m hm).2)
    cases hfile.symm.trans hfile₁
    obtain ⟨q, content₂, hq, hfile₂, hlines'⟩ := readFile_eq_ok_iff.mp hnew
    cases hq.symm.trans ((h.isDirectory hp).resolve_join (hnames m hm).2)
    cases (h.file _ _ hfile).symm.trans hfile₂
    by_contra hunfinished
    obtain ⟨first, rest, hadded⟩ :=
      List.exists_cons_of_ne_nil (List.ne_nil_of_mem (mem_destined.mpr ⟨hm, rfl⟩))
    obtain ⟨e, he⟩ := readLines_append_unfinished hlines hunfinished first rest
    rw [hadded, he] at hlines'
    cases hlines'
  · intro hfinished name hname
    obtain ⟨hkey, hsome⟩ := mem_keyNames.mp hname
    by_cases hnone : d.at? (p ++ [name]) = none
    · refine ⟨_, h.readFile_fresh hp hnames hcreated hnone fun hempty => hsome ?_⟩
      rw [h.fresh _ hnone, destined_name, hempty]
      rfl
    · obtain ⟨old, hold⟩ := hread name (mem_keyNames.mpr ⟨hkey, hnone⟩)
      obtain ⟨q, -, hnew⟩ := h.readFile hp hnames hfinished hcreated hold
      exact ⟨_, hnew⟩

/-- **What is found** is what was found before and then what has come. -/
theorem Grown.findByPhone (h : Grown d d' p ms) (hp : d.IsDirectory s.directory p)
    (hnames : Nameable s.directory ms) (hcreated : ∀ m ∈ ms, m.createdAt.isValid)
    (hread : ∃ l, readAll d (s.keyFiles d) = .ok l) (hfinished : FinishedFor s.directory d ms)
    (phone : String) : ∃ old, s.findByPhone d phone = .ok old ∧
      s.findByPhone d' phone = .ok (old ++ ms.filter (·.phone = phone)) := by
  rw [keyFiles_eq hp, FileStore.readAll_iff, List.forall_mem_map] at hread
  cases hkey : isKey phone with
  | false =>
    rw [filter_phone_of_not_isKey hkey fun m hm => (hnames m hm).1]
    exact ⟨[], findByPhone_of_not_isKey hkey, findByPhone_of_not_isKey hkey⟩
  | true =>
    rw [← inFile_path]
    by_cases hnone : d.at? (p ++ [phone ++ suffix]) = none
    · refine ⟨[], findByPhone_of_none hkey hp hnone, ?_⟩
      by_cases hempty : inFile ms (phone ++ suffix) = []
      · rw [hempty]
        refine findByPhone_of_none hkey (h.isDirectory hp) ?_
        rw [h.fresh _ hnone, destined_name, hempty]
        rfl
      · exact findByPhone_of_read hkey (h.readFile_fresh hp hnames hcreated hnone hempty)
    · obtain ⟨old, hold⟩ := hread _ (mem_keyNames.mpr ⟨isKeyFile_of_isKey hkey, hnone⟩)
      obtain ⟨q, hq, hnew⟩ := h.readFile hp hnames hfinished hcreated hold
      obtain ⟨-, rfl⟩ := hp.of_resolve_join (isName_of_isKey hkey) hq
      rw [destined_name] at hnew
      exact ⟨old, findByPhone_of_read hkey hold, findByPhone_of_read hkey hnew⟩

/-! ### Opening -/

/-- A store whose directory is there can be opened as far as its files can be read. -/
theorem load_fst (hp : d.IsDirectory s.directory p) :
    (s.load d).1 = (readAll d (s.keyFiles d)).map fun _ => () := by
  rw [load, hp.makeDirectory]
  dsimp only
  cases readAll d (s.keyFiles d) <;> rfl

/-- A store whose directory is there takes the ids of the messages that it reads. -/
theorem load_of_readAll (hp : d.IsDirectory s.directory p)
    (hread : readAll d (s.keyFiles d) = .ok ms) :
    s.load d = (.ok (), { s with ids := idsOf ms }, d) := by
  rw [load, hp.makeDirectory]
  dsimp only
  rw [hread]

/-- A store whose directory is there can be opened if it can read its files. -/
theorem load_eq_ok_iff (hp : d.IsDirectory s.directory p) :
    (s.load d).1 = .ok () ↔ ∃ l, readAll d (s.keyFiles d) = .ok l := by
  rw [load_fst hp]
  cases readAll d (s.keyFiles d) with
  | error e =>
    constructor
    · intro hloaded
      cases hloaded
    · rintro ⟨l, hread⟩
      cases hread
  | ok l => exact ⟨fun _ => ⟨l, rfl⟩, fun _ => rfl⟩

/-- A store that cannot list its messages cannot be opened any more. -/
theorem load_of_list_error (hp : d.IsDirectory s.directory p) {e : StoreError}
    (hlist : s.list d = .error e) : (s.load d).1 = .error e := by
  rw [load_fst hp]
  rw [list] at hlist
  cases hread : readAll d (s.keyFiles d) with
  | error e' =>
    rw [hread] at hlist
    cases hlist
    rfl
  | ok l =>
    rw [hread] at hlist
    cases hlist

/-- All messages can be listed if the store can read its files. -/
theorem list_eq_ok_iff :
    (∃ l, s.list d = .ok l) ↔ ∃ l, readAll d (s.keyFiles d) = .ok l := by
  rw [list]
  cases readAll d (s.keyFiles d) with
  | error e => constructor <;> rintro ⟨l, hread⟩ <;> cases hread
  | ok l => exact ⟨fun _ => ⟨l, rfl⟩, fun _ => ⟨_, rfl⟩⟩

end FileStore

/-- A batch does no damage: the messages can be listed, a new store can be opened, and the messages
that have been added are found behind those that were found before. -/
structure Store.Undamaged (s : Store) (b : List Message) : Prop where
  listed : ∃ l, (s.insertBatch b).2.list = .ok l
  reopened : (s.insertBatch b).2.reopen.1 = .ok ()
  found : ∀ phone, ∃ old, s.findByPhone phone = .ok old ∧
    (s.insertBatch b).2.findByPhone phone = .ok (old ++ (s.added b).filter (·.phone = phone))

namespace FileStore

/-- A batch does no damage to a store that can read its files if those that grow are finished. -/
theorem undamaged_iff (hp : d.IsDirectory s.directory p)
    (hread : ∃ l, readAll d (s.keyFiles d) = .ok l) (hcreated : ∀ m ∈ b, m.createdAt.isValid) :
    (Store.files s d).Undamaged b ↔
      FinishedFor s.directory d ((Store.files s d).added b) := by
  obtain ⟨s', d', hstore, hdirectory, hgrown, hnames⟩ := exists_grown hp b
  have hadded : ∀ m ∈ (Store.files s d).added b, m.createdAt.isValid := fun m hm =>
    hcreated m (Store.added_sublist.subset hm)
  have hall := hgrown.readAll_iff hp hnames hadded hread
  have hkeyFiles : s'.keyFiles d' = s.keyFiles d' := by rw [keyFiles, keyFiles, hdirectory]
  rw [← hkeyFiles] at hall
  constructor
  · intro h
    have hlist := h.listed
    rw [hstore] at hlist
    exact hall.mp (list_eq_ok_iff.mp hlist)
  · intro hfinished
    refine ⟨?_, ?_, fun phone => ?_⟩
    · rw [hstore]
      exact list_eq_ok_iff.mpr (hall.mpr hfinished)
    · rw [hstore]
      exact (load_eq_ok_iff (s := { s' with ids := [] })
        (hdirectory ▸ hgrown.isDirectory hp)).mpr (hall.mpr hfinished)
    · obtain ⟨old, hold, hnew⟩ := hgrown.findByPhone hp hnames hadded hread hfinished phone
      refine ⟨old, hold, ?_⟩
      rw [hstore, ← hnew]
      show s'.findByPhone d' phone = _
      rw [FileStore.findByPhone, FileStore.findByPhone, path, path, hdirectory]

/-- **A batch does no damage exactly if the files that grow were finished.** -/
theorem insertBatch_undamaged_iff (hloaded : (s.load d).1 = .ok ())
    (hlisted : ∃ names, (s.load d).2.2.names s.directory = .ok names)
    (hcreated : ∀ m ∈ b, m.createdAt.isValid) :
    (Store.files s d).load.2.Undamaged b ↔
      FinishedFor s.directory (s.load d).2.2 ((Store.files s d).load.2.added b) := by
  have hread : ∃ l, readAll (s.load d).2.2 (s.keyFiles (s.load d).2.2) = .ok l :=
    (read_of_load hloaded).imp fun _ => And.left
  obtain ⟨names, hnames⟩ := hlisted
  obtain ⟨p, hp, -⟩ := Disk.names_eq_ok_iff.mp hnames
  have hdirectory := (load_settings s d).1
  have hkeyFiles : (s.load d).2.1.keyFiles (s.load d).2.2 = s.keyFiles (s.load d).2.2 := by
    rw [keyFiles, keyFiles, hdirectory]
  rw [← hkeyFiles] at hread
  rw [← hdirectory] at hp ⊢
  exact undamaged_iff hp hread hcreated

/-- The home directory with one file in the directory of a store. -/
def found (content : Bytes) : Disk where
  home := ["home"]
  entries := [(["home"], .directory), (["home", "data"], .directory),
    (["home", "data", "+7.jsonl"], .file content)]

theorem isDirectory_found (content : Bytes) :
    (found content).IsDirectory "data" ["home", "data"] := ⟨rfl, rfl⟩

/-- White space behind the last line feed does no harm. -/
theorem undamaged_found :
    let m : Message := { Message.blank with correlationId := "a", phone := "+7" }
    let b : List Message := [{ m with correlationId := "b" }, m, { m with phone := "8" }]
    let d := found (utf8 ("\r\n" ++ m.toJson.render ++ "\r\n \t"))
    (FileStore.load ⟨"data", true, []⟩ d).1 = .ok () ∧
      (Store.files ⟨"data", true, []⟩ d).load.2.Undamaged b := by
  intro m b d
  have hread : readAll d ((⟨"data", true, []⟩ : FileStore).keyFiles d) = .ok [m] := by
    decide +kernel
  have hload : FileStore.load ⟨"data", true, []⟩ d = (.ok (), ⟨"data", true, ["a"]⟩, d) :=
    load_of_readAll (isDirectory_found _) hread
  have hloaded := congrArg Prod.fst hload
  have hfinished : FinishedFor "data" d ((Store.files ⟨"data", true, ["a"]⟩ d).added b) := by
    decide +kernel
  refine ⟨hloaded, (insertBatch_undamaged_iff hloaded ?_ (by decide +kernel)).mpr ?_⟩
  · rw [hload]
    exact ⟨["+7.jsonl"], rfl⟩
  · rw [Store.load, hload]
    exact hfinished

/-- **A line without a line feed** is read when the store is opened, and no more when the next
message has been added. -/
theorem damaged_open_line :
    let m : Message := { Message.blank with correlationId := "a", phone := "+7" }
    let b : List Message := [{ m with correlationId := "b" }]
    let s := (Store.files ⟨"data", true, []⟩ (found (utf8 m.toJson.render))).load
    let e := StoreError.format "data/+7.jsonl: malformed text"
    s.1 = .ok () ∧ s.2.Withstands b ∧ (s.2.insertBatch b).2.list = .error e ∧
      (s.2.insertBatch b).2.reopen.1 = .error e ∧ ¬ s.2.Undamaged b := by
  intro m b s e
  let d := found (utf8 m.toJson.render)
  have hread : readAll d ((⟨"data", true, []⟩ : FileStore).keyFiles d) = .ok [m] := by
    decide +kernel
  have hd : d.IsDirectory "data" ["home", "data"] := isDirectory_found _
  have hload : FileStore.load ⟨"data", true, []⟩ d = (.ok (), ⟨"data", true, ["a"]⟩, d) :=
    load_of_readAll hd hread
  have hs : s = (.ok (), .files ⟨"data", true, ["a"]⟩ d) := by
    show (Store.files ⟨"data", true, []⟩ d).load = _
    rw [Store.load, hload]
  rw [hs]
  have hlist : ((Store.files ⟨"data", true, ["a"]⟩ d).insertBatch b).2.list = .error e := by
    decide +kernel
  refine ⟨rfl, by decide +kernel, hlist, ?_, fun h => ?_⟩
  · obtain ⟨s', d', hstore, hdirectory, hgrown, -⟩ :=
      exists_grown (s := ⟨"data", true, ["a"]⟩) hd b
    have hp : d'.IsDirectory s'.directory ["home", "data"] := by
      rw [hdirectory]
      exact hgrown.isDirectory hd
    rw [hstore] at hlist ⊢
    exact load_of_list_error (s := { s' with ids := [] }) hp hlist
  · obtain ⟨l, hl⟩ := h.listed
    cases hlist.symm.trans hl

end FileStore

end SmsRelay
