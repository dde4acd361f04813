import SmsRelay.Proofs.Store.Disk
import SmsRelay.Proofs.Store.Lines
import SmsRelay.Proofs.Store.Tally

/-!
# How messages are filed

The files of a store hold the messages that it has written, each file those of its phone number in
the order in which they came. So what is asked of the store is answered from these messages, and a
store that is opened anew on the same files takes the same correlation ids for taken.

## Implementation notes

`Filed` says of each name what stands there. The directory may hold other things, but no other files
whose names could belong to the store.

`Carries` asks for nothing that a failing disk could break: what cannot be written changes nothing.

## Main results

* `Carries.put`: what becomes of a message.
* `Carries.findByPhone`, `Carries.list`, `Carries.deleteAll`: what the store answers.
* `Carries.reload`: a store that is opened anew.
-/

namespace SmsRelay

namespace FileStore

/-! ### Names of files -/

/-- The name of the file of a message. -/
def fileName (m : Message) : String := m.phone ++ suffix

/-- The store can take messages of the phone number: it makes a name, and the system accepts the
path of this name. -/
structure Accepts (s : FileStore) (phone : String) : Prop where
  key : isKey phone
  accepted : Disk.refused? (s.path phone) = none
  short : Disk.isLong (phone ++ suffix) = false

theorem isKey_iff {phone : String} : isKey phone ↔
    phone ≠ "" ∧ ∀ c ∈ phone.toList, isKeyChar c := by
  simp [isKey]

theorem isName_of_isKey {phone : String} (h : isKey phone) : Disk.IsName (phone ++ suffix) := by
  obtain ⟨-, hchars⟩ := isKey_iff.mp h
  have hlist : (phone ++ suffix).toList = phone.toList ++ ".jsonl".toList := String.toList_append
  have hlong : 6 ≤ (phone ++ suffix).toList.length := by
    rw [hlist, List.length_append]
    exact Nat.le_add_left _ _
  have hne : ∀ t : String, t.toList.length < 6 → phone ++ suffix ≠ t := by
    intro t ht heq
    rw [heq] at hlong
    exact absurd hlong (Nat.not_le.mpr ht)
  refine ⟨fun hslash => ?_, hne "" (by decide), hne "." (by decide), hne ".." (by decide)⟩
  rw [hlist, List.mem_append] at hslash
  rcases hslash with hslash | hslash
  · exact absurd (hchars _ hslash) (by decide)
  · exact absurd hslash (by decide)

theorem isKeyFile_of_isKey {phone : String} (h : isKey phone) : isKeyFile (phone ++ suffix) := by
  obtain ⟨hne, -⟩ := isKey_iff.mp h
  have hpos : 0 < phone.length := by
    rw [← String.length_toList]
    exact List.length_pos_iff.mpr (by simpa using hne)
  have hdrop : (phone ++ suffix).length - suffix.length = phone.toList.length := by
    rw [String.length_append, Nat.add_sub_cancel]
    rfl
  rw [isKeyFile, hdrop, String.toList_append, List.drop_left]
  simp [String.length_append, hpos]

theorem Accepts.fits {s : FileStore} {phone : String} (h : s.Accepts phone) :
    Disk.Fits s.directory (phone ++ suffix) :=
  ⟨isName_of_isKey h.key, h.accepted, h.short⟩

/-! ### Contents of files -/

/-- The messages whose file has a name. -/
def inFile (ms : List Message) (name : String) : List Message := ms.filter (fileName · = name)

/-- What stands at the place of a file that holds some messages; without any there is none. -/
def node? (ms : List Message) : Option Node :=
  if ms = [] then none else some (.file (ms.flatMap line))

/-- The files of the directory at a place hold the messages. -/
structure Filed (d : Disk) (p : Place) (ms : List Message) : Prop where
  content : ∀ name, isKeyFile name → d.at? (p ++ [name]) = node? (inFile ms name)
  nodup : ((d.childNames p).filter isKeyFile).Nodup

theorem inFile_append_self {ms : List Message} {m : Message} :
    inFile (ms ++ [m]) (fileName m) = inFile ms (fileName m) ++ [m] := by
  rw [inFile, List.filter_append, List.filter_cons_of_pos (by simp)]
  rfl

theorem inFile_append_of_ne {ms : List Message} {m : Message} {name : String}
    (h : name ≠ fileName m) : inFile (ms ++ [m]) name = inFile ms name := by
  rw [inFile, List.filter_append, List.filter_cons_of_neg (by simpa using h.symm)]
  exact List.append_nil _

theorem node?_append (ms : List Message) (m : Message) :
    node? (ms ++ [m]) = some (.file (ms.flatMap line ++ line m)) := by
  rw [node?, if_neg (by simp), List.flatMap_append]
  simp

theorem Filed.ne_directory {d : Disk} {p : Place} {ms : List Message} (h : Filed d p ms)
    {name : String} (hname : isKeyFile name) : d.at? (p ++ [name]) ≠ some .directory := by
  rw [h.content name hname, node?]
  split <;> nofun

theorem Filed.holds {d : Disk} {p : Place} {ms : List Message} (h : Filed d p ms) {name : String}
    (hname : isKeyFile name) : d.Holds (p ++ [name]) ((inFile ms name).flatMap line) := by
  rw [Disk.Holds, h.content name hname, node?]
  split
  · rename_i hempty
    rw [hempty]
    exact .inr ⟨rfl, rfl⟩
  · exact .inl rfl

/-- A file that is written is listed once. -/
theorem nodup_childNames_put {d : Disk} {p : Place}
    (h : ((d.childNames p).filter isKeyFile).Nodup) {name : String} (hname : isKeyFile name)
    (n : Node) : (((d.put (p ++ [name]) n).childNames p).filter isKeyFile).Nodup := by
  rw [Disk.childNames_put, List.filter_append, List.filter_cons_of_pos hname, List.filter_nil,
    List.filter_comm, List.nodup_append]
  refine ⟨h.filter _, List.nodup_singleton _, fun a ha b hb => ?_⟩
  rw [List.mem_singleton.mp hb]
  simpa using (List.mem_filter.mp ha).2

/-- **A line is added** to the file of its message. -/
theorem Filed.append {d : Disk} {p : Place} {ms : List Message} (h : Filed d p ms) {m : Message}
    (hname : isKeyFile (fileName m)) : Filed (d.put (p ++ [fileName m])
      (.file ((inFile ms (fileName m)).flatMap line ++ line m))) p (ms ++ [m]) := by
  refine ⟨fun name hkey => ?_, nodup_childNames_put h.nodup hname _⟩
  rw [Disk.at?_put_child]
  by_cases heq : name = fileName m
  · rw [heq, if_pos rfl, inFile_append_self, node?_append]
  · rw [if_neg heq, inFile_append_of_ne heq]
    exact h.content name hkey

/-! ### Listing -/

/-- A file that is read holds what is read. -/
theorem readFile_eq_ok_iff {d : Disk} {path : String} {ms : List Message} :
    readFile d path = .ok ms ↔ ∃ q content, d.resolve path = .ok q ∧
      d.at? q = some (.file content) ∧ readLines path (lines content) = .ok ms := by
  constructor
  · intro h
    rw [readFile, Disk.find] at h
    cases hresolve : d.resolve path with
    | error e =>
      rw [hresolve] at h
      cases h
    | ok q =>
      rw [hresolve] at h
      dsimp only at h
      cases hnode : d.at? q with
      | none =>
        rw [hnode] at h
        cases h
      | some node =>
        rw [hnode] at h
        cases node with
        | directory => cases h
        | file content => exact ⟨q, content, rfl, hnode, h⟩
  · rintro ⟨q, content, hresolve, hfile, hread⟩
    rw [readFile, Disk.find, hresolve]
    dsimp only
    rw [hfile]
    exact hread

/-- A file that holds nothing but messages is read. -/
theorem readFile_node {d : Disk} {directory : String} {p : Place} (hp : d.IsDirectory directory p)
    {name : String} (hfits : Disk.Fits directory name) {ms : List Message}
    (hnode : d.at? (p ++ [name]) = node? ms) (hcreated : ∀ m ∈ ms, m.createdAt.isValid)
    (hsome : ms ≠ []) : readFile d (Disk.join directory name) = .ok ms := by
  rw [node?, if_neg hsome] at hnode
  exact readFile_eq_ok_iff.mpr ⟨_, _, hp.resolve_join hfits, hnode, readLines_lines _ hcreated⟩

theorem Filed.readFile {d : Disk} {p : Place} {ms : List Message} (h : Filed d p ms)
    {directory : String} (hp : d.IsDirectory directory p) {name : String}
    (hname : isKeyFile name) (hfits : Disk.Fits directory name)
    (hcreated : ∀ m ∈ ms, m.createdAt.isValid) (hsome : inFile ms name ≠ []) :
    readFile d (Disk.join directory name) = .ok (inFile ms name) :=
  readFile_node hp hfits (h.content name hname)
    (fun m hm => hcreated m (List.mem_filter.mp hm).1) hsome

theorem readAll_map {d : Disk} {path : String → String} {held : String → List Message}
    {names : List String} (h : ∀ name ∈ names, readFile d (path name) = .ok (held name)) :
    readAll d (names.map path) = .ok (names.flatMap held) := by
  induction names with
  | nil => rfl
  | cons name names ih =>
    rw [List.map_cons, readAll, h name List.mem_cons_self,
      ih fun n hn => h n (List.mem_cons_of_mem name hn)]
    rfl

/-- Messages sorted by their files are the same messages. -/
theorem flatMap_inFile_perm {names : List String} {ms : List Message} (hnodup : names.Nodup)
    (hall : ∀ m ∈ ms, fileName m ∈ names) : (names.flatMap (inFile ms)).Perm ms := by
  induction names generalizing ms with
  | nil =>
    have hnone : ms = [] := List.eq_nil_iff_forall_not_mem.mpr fun m hm =>
      List.not_mem_nil (hall m hm)
    rw [hnone]
    rfl
  | cons name names ih =>
    rw [List.nodup_cons] at hnodup
    -- the messages of the first file do not matter to the others
    have hothers : names.flatMap (inFile ms)
        = names.flatMap (inFile (ms.filter (fileName · ≠ name))) := by
      refine List.flatMap_congr fun n hn => ?_
      have hne : n ≠ name := fun heq => hnodup.1 (heq ▸ hn)
      rw [inFile, inFile, List.filter_filter]
      refine List.filter_congr fun m _ => ?_
      by_cases hm : fileName m = n <;> simp [hm, hne]
    have hrest : (names.flatMap (inFile (ms.filter (fileName · ≠ name)))).Perm
        (ms.filter (fileName · ≠ name)) := by
      refine ih hnodup.2 fun m hm => ?_
      obtain ⟨hm, hne⟩ := List.mem_filter.mp hm
      exact (List.mem_cons.mp (hall m hm)).resolve_left (by simpa using hne)
    rw [List.flatMap_cons, hothers]
    refine (hrest.append_left _).trans ?_
    have hsplit := List.filter_append_perm (fun m => decide (fileName m = name)) ms
    simpa [inFile] using hsplit

/-- The names of the files of a store, sorted. -/
def keyNames (d : Disk) (p : Place) : List String :=
  ((d.childNames p).filter isKeyFile).mergeSort fun a b => decide (a ≤ b)

theorem keyFiles_eq {s : FileStore} {d : Disk} {p : Place} (hp : d.IsDirectory s.directory p) :
    s.keyFiles d = (keyNames d p).map (Disk.join s.directory) := by
  have hnames : d.names s.directory = .ok (d.childNames p) :=
    Disk.names_eq_ok_iff.mpr ⟨p, hp, rfl⟩
  rw [keyFiles, hnames]
  rfl

theorem mem_keyNames {d : Disk} {p : Place} {name : String} :
    name ∈ keyNames d p ↔ isKeyFile name ∧ d.at? (p ++ [name]) ≠ none := by
  rw [keyNames, (List.mergeSort_perm _ _).mem_iff, List.mem_filter, Disk.mem_childNames, and_comm]

theorem Filed.mem_keyNames {d : Disk} {p : Place} {ms : List Message} (h : Filed d p ms)
    {name : String} : name ∈ keyNames d p ↔ isKeyFile name ∧ inFile ms name ≠ [] := by
  rw [FileStore.mem_keyNames]
  refine and_congr_right fun hname => ?_
  rw [h.content name hname, node?]
  split <;> simp_all

/-! ### What the files carry -/

/-- The files hold the messages. The correlation ids that are taken are theirs, if the store keeps
ids unique. -/
structure Carries (s : FileStore) (d : Disk) (ms : List Message) : Prop where
  ids : s.unique → Taken s.ids ms
  filed : ∃ p, d.IsDirectory s.directory p ∧ Filed d p ms
  accepted : ∀ m ∈ ms, s.Accepts m.phone
  created : ∀ m ∈ ms, m.createdAt.isValid

variable {s : FileStore} {d : Disk} {ms : List Message} {m : Message}

/-- A directory without files of the store. -/
theorem filed_nil {p : Place} (hnone : ∀ name ∈ d.childNames p, ¬ isKeyFile name) :
    Filed d p [] where
  content name hname := by
    by_contra hsome
    exact hnone name (Disk.mem_childNames.mpr hsome) hname
  nodup := by
    rw [List.filter_eq_nil_iff.mpr hnone]
    exact List.nodup_nil

/-- A store over an empty directory. -/
theorem carries_nil (hids : s.ids = []) {p : Place} (hp : d.IsDirectory s.directory p)
    (hnone : ∀ name ∈ d.childNames p, ¬ isKeyFile name) : s.Carries d [] :=
  ⟨fun _ => hids ▸ taken_nil, ⟨p, hp, filed_nil hnone⟩, nofun, nofun⟩

theorem Carries.fits (h : s.Carries d ms) {name : String} (hsome : inFile ms name ≠ []) :
    Disk.Fits s.directory name := by
  obtain ⟨m, hm⟩ := List.exists_mem_of_ne_nil _ hsome
  obtain ⟨hm, heq⟩ := List.mem_filter.mp hm
  have hfits := (h.accepted m hm).fits
  rwa [show m.phone ++ suffix = name from of_decide_eq_true heq] at hfits

/-! ### Reading -/

/-- Each file is read, and together they hold all messages. -/
theorem Carries.read (h : s.Carries d ms) {p : Place} (hp : d.IsDirectory s.directory p)
    (hfiled : Filed d p ms) : (∀ name ∈ keyNames d p,
      readFile d (Disk.join s.directory name) = .ok (inFile ms name)) ∧
    ((keyNames d p).flatMap (inFile ms)).Perm ms := by
  constructor
  · intro name hname
    obtain ⟨hkey, hsome⟩ := hfiled.mem_keyNames.mp hname
    exact hfiled.readFile hp hkey (h.fits hsome) h.created hsome
  · refine flatMap_inFile_perm ((List.mergeSort_perm _ _).nodup_iff.mpr hfiled.nodup) fun m hm => ?_
    refine hfiled.mem_keyNames.mpr ⟨isKeyFile_of_isKey (h.accepted m hm).key, ?_⟩
    exact List.ne_nil_of_mem (List.mem_filter.mpr ⟨hm, decide_eq_true rfl⟩)

/-- All files are read. -/
theorem Carries.readAll (h : s.Carries d ms) :
    ∃ l, readAll d (s.keyFiles d) = .ok l ∧ l.Perm ms := by
  obtain ⟨p, hp, hfiled⟩ := h.filed
  obtain ⟨hread, hperm⟩ := h.read hp hfiled
  exact ⟨_, by rw [keyFiles_eq hp, readAll_map hread], hperm⟩

/-- **All messages are listed**, in the order of their creation. -/
theorem Carries.list (h : s.Carries d ms) : ∃ l, s.list d = .ok l ∧ l.Perm ms ∧
    l.Pairwise fun a b => a.createdAt.le b.createdAt := by
  obtain ⟨l, hread, hperm⟩ := h.readAll
  refine ⟨l.mergeSort fun a b => a.createdAt.le b.createdAt, by rw [FileStore.list, hread]; rfl,
    (List.mergeSort_perm _ _).trans hperm, List.pairwise_mergeSort ?_ ?_ l⟩
  · exact fun a b c => Instant.le_trans
  · exact fun a b => Instant.le_total _ _

theorem inFile_path (ms : List Message) (phone : String) :
    inFile ms (phone ++ suffix) = ms.filter (·.phone = phone) := by
  refine List.filter_congr fun m _ => ?_
  rw [fileName, decide_eq_decide, ← String.toList_inj, ← String.toList_inj, String.toList_append,
    String.toList_append]
  exact List.append_left_inj _

/-- What is read from the file of a phone number is found. -/
theorem findByPhone_of_read {phone : String} (hkey : isKey phone)
    (hread : FileStore.readFile d (s.path phone) = .ok ms) : s.findByPhone d phone = .ok ms := by
  have hpresent : d.isPresent (s.path phone) := by
    obtain ⟨q, content, hresolve, hfile, -⟩ := readFile_eq_ok_iff.mp hread
    rw [Disk.isPresent, Disk.find, hresolve]
    dsimp only
    rw [hfile]
  rw [FileStore.findByPhone, hkey, hpresent]
  exact hread

/-- Nothing is found if the file of a phone number is not there, wherever its path may lead. -/
theorem findByPhone_of_none {phone : String} (hkey : isKey phone) {p : Place}
    (hp : d.IsDirectory s.directory p) (hnone : d.at? (p ++ [phone ++ suffix]) = none) :
    s.findByPhone d phone = .ok [] := by
  have habsent : d.isPresent (s.path phone) = false := by
    rw [Disk.isPresent, Disk.find]
    cases hresolve : d.resolve (s.path phone) with
    | error e => rfl
    | ok q =>
      rw [(hp.of_resolve_join (isName_of_isKey hkey) hresolve).2]
      dsimp only
      rw [hnone]
  rw [FileStore.findByPhone, hkey, habsent]
  rfl

/-- Nothing is found for what is no phone number. -/
theorem findByPhone_of_not_isKey {phone : String} (hkey : isKey phone = false) :
    s.findByPhone d phone = .ok [] := by
  rw [FileStore.findByPhone, hkey]
  rfl

/-- No message has a phone number that is none. -/
theorem filter_phone_of_not_isKey {phone : String} (hkey : isKey phone = false)
    (hall : ∀ m ∈ ms, isKey m.phone) : ms.filter (·.phone = phone) = [] := by
  refine List.filter_eq_nil_iff.mpr fun m hm heq => ?_
  have hm' := hall m hm
  rw [of_decide_eq_true heq, hkey] at hm'
  cases hm'

/-- **The messages of a phone number are found.** -/
theorem Carries.findByPhone (h : s.Carries d ms) (phone : String) :
    s.findByPhone d phone = .ok (ms.filter (·.phone = phone)) := by
  obtain ⟨p, hp, hfiled⟩ := h.filed
  cases hkey : isKey phone with
  | false =>
    rw [filter_phone_of_not_isKey hkey fun m hm => (h.accepted m hm).key]
    exact findByPhone_of_not_isKey hkey
  | true =>
    rw [← inFile_path]
    by_cases hnone : inFile ms (phone ++ suffix) = []
    · rw [hnone]
      refine findByPhone_of_none hkey hp ?_
      rw [hfiled.content _ (isKeyFile_of_isKey hkey), hnone]
      rfl
    · exact findByPhone_of_read hkey
        (hfiled.readFile hp (isKeyFile_of_isKey hkey) (h.fits hnone) h.created hnone)

/-! ### Writing -/

theorem directory_accept (s : FileStore) (m : Message) : (s.accept m).directory = s.directory := by
  rw [accept]
  split <;> rfl

theorem unique_accept (s : FileStore) (m : Message) : (s.accept m).unique = s.unique := by
  rw [accept]
  split <;> rfl

theorem Accepts.of_directory {s s' : FileStore} {phone : String} (h : s.Accepts phone)
    (hdirectory : s'.directory = s.directory) : s'.Accepts phone := by
  refine ⟨h.key, ?_, h.short⟩
  rw [path, hdirectory]
  exact h.accepted

/-- The id of a message that is written is taken. -/
theorem taken_accept (hids : s.unique → Taken s.ids ms) (hunique : s.unique) :
    Taken (s.accept m).ids (ms ++ [m]) := by
  have hrecord := (hids hunique).record m
  rw [accept, isTracked, hunique, Bool.true_and]
  split at hrecord <;> rename_i hid
  · rwa [if_pos hid]
  · rwa [if_neg hid]

/-- **A line is written**: the files carry one more message. -/
theorem Carries.accept (h : s.Carries d ms) (hkey : isKey m.phone) (hcreated : m.createdAt.isValid)
    {q : Place} (hresolve : d.resolve (s.path m.phone) = .ok q) {content : Bytes}
    (hholds : d.Holds q content) :
    (s.accept m).Carries (d.put q (.file (content ++ line m))) (ms ++ [m]) := by
  obtain ⟨p, hp, hfiled⟩ := h.filed
  have hname := isKeyFile_of_isKey hkey
  obtain ⟨hfits, rfl⟩ := hp.of_resolve_join (isName_of_isKey hkey) hresolve
  have hcontent : content = (inFile ms (m.phone ++ suffix)).flatMap line := by
    have hfile := hfiled.holds hname
    rcases hholds with hholds | ⟨hholds, rfl⟩ <;> rcases hfile with hfile | ⟨hfile, hempty⟩
    · simpa using Option.some.inj (hholds.symm.trans hfile)
    · cases hholds.symm.trans hfile
    · cases hholds.symm.trans hfile
    · exact hempty.symm
  have haccepts : s.Accepts m.phone := ⟨hkey, hfits.accepted, hfits.short⟩
  have hdirectory := directory_accept s m
  refine ⟨fun hunique => taken_accept h.ids (unique_accept s m ▸ hunique), ⟨p, ?_, ?_⟩, ?_, ?_⟩
  · rw [hdirectory]
    exact hp.put (hfiled.ne_directory hname) _
  · rw [hcontent]
    exact hfiled.append hname
  · intro n hn
    rcases List.mem_append.mp hn with hn | hn
    · exact (h.accepted n hn).of_directory hdirectory
    · rw [List.mem_singleton.mp hn]
      exact haccepts.of_directory hdirectory
  · intro n hn
    rcases List.mem_append.mp hn with hn | hn
    · exact h.created n hn
    · rwa [List.mem_singleton.mp hn]

/-- What is to come on the disk does not matter to what it holds. -/
theorem Carries.faults (h : s.Carries d ms) (faults : List (Option DiskError)) :
    s.Carries { d with faults := faults } ms := by
  obtain ⟨p, hp, hfiled⟩ := h.filed
  exact ⟨h.ids, ⟨p, hp.mono rfl fun _ hq => hq, hfiled.content, hfiled.nodup⟩, h.accepted,
    h.created⟩

/-- **What a message does**: it is not stored and changes nothing, or it is added to its file. -/
theorem put_cases (s : FileStore) (d : Disk) (m : Message) :
    (put (s, d) m).1 ≠ .stored ∧
        (∃ faults, (put (s, d) m).2 = (s, ({ d with faults := faults } : Disk))) ∨
      isKey m.phone ∧ ∃ q content, d.resolve (s.path m.phone) = .ok q ∧ d.Holds q content ∧
        put (s, d) m = (.stored, s.accept m,
          ({ d with faults := d.faults.tail } : Disk).put q (.file (content ++ line m))) := by
  rw [FileStore.put]
  by_cases hverdict : s.verdict m = .stored
  · have hkey : isKey m.phone := by
      rw [verdict] at hverdict
      split at hverdict
      · cases hverdict
      · rename_i hkey
        simpa using hkey
    rw [if_pos hverdict]
    rcases Disk.append_cases d (s.path m.phone) (line m) with
      ⟨e, happend⟩ | ⟨q, content, hresolve, hholds, happend⟩
    · rw [happend]
      exact .inl ⟨nofun, d.faults.tail, rfl⟩
    · rw [happend]
      exact .inr ⟨hkey, q, content, hresolve, hholds, rfl⟩
  · rw [if_neg hverdict]
    exact .inl ⟨hverdict, d.faults, rfl⟩

/-- **What becomes of a message**: the files carry it as well if it is stored. -/
theorem Carries.put (h : s.Carries d ms) (hcreated : m.createdAt.isValid) :
    (put (s, d) m).2.1.Carries (put (s, d) m).2.2
      (if (put (s, d) m).1 = .stored then ms ++ [m] else ms) := by
  rcases put_cases s d m with ⟨hnot, faults, hput⟩ | ⟨hkey, q, content, hresolve, hholds, hput⟩
  · rw [if_neg hnot, hput]
    exact h.faults faults
  · rw [hput]
    have hresolve' : ({ d with faults := d.faults.tail } : Disk).resolve (s.path m.phone)
        = .ok q := by
      refine Disk.resolve_mono ?_ ?_ hresolve
      · rfl
      · exact fun _ hq => hq
    exact (h.faults d.faults.tail).accept hkey hcreated hresolve' hholds

theorem put_settings (s : FileStore) (d : Disk) (m : Message) :
    (put (s, d) m).2.1.directory = s.directory ∧ (put (s, d) m).2.1.unique = s.unique := by
  rw [FileStore.put]
  split
  · split
    · exact ⟨directory_accept s m, unique_accept s m⟩
    · exact ⟨rfl, rfl⟩
  · exact ⟨rfl, rfl⟩

/-! ### Removing -/

/-- A file is removed. The others are read as before. -/
theorem remove_file {directory name : String} {p : Place} {held : List Message}
    (hfits : Disk.Fits directory name) (hp : d.IsDirectory directory p)
    (hread : readFile d (Disk.join directory name) = .ok held) :
    ∃ d', d.remove (Disk.join directory name) = .ok d' ∧ d'.IsDirectory directory p ∧
      (∀ other, d'.at? (p ++ [other]) = if other = name then none else d.at? (p ++ [other])) ∧
      ∀ other, Disk.Fits directory other → other ≠ name →
        readFile d' (Disk.join directory other) = readFile d (Disk.join directory other) := by
  have hresolve := hp.resolve_join hfits
  obtain ⟨content, hfile⟩ : ∃ content, d.at? (p ++ [name]) = some (.file content) := by
    obtain ⟨q, content, hq, hfile, -⟩ := readFile_eq_ok_iff.mp hread
    cases hresolve.symm.trans hq
    exact ⟨content, hfile⟩
  have hremove : d.remove (Disk.join directory name) = .ok (d.erase (p ++ [name])) := by
    rw [Disk.remove, hresolve]
    dsimp only
    rw [hfile]
  have herase : ∀ other, (d.erase (p ++ [name])).at? (p ++ [other]) =
      if other = name then none else d.at? (p ++ [other]) := by
    intro other
    rw [Disk.at?_erase]
    simp
  have hp' : (d.erase (p ++ [name])).IsDirectory directory p := hp.erase (by rw [hfile]; nofun)
  refine ⟨_, hremove, hp', herase, fun other hfits' hne => ?_⟩
  rw [readFile, readFile, Disk.find, Disk.find, hp'.resolve_join hfits', hp.resolve_join hfits']
  dsimp only
  rw [herase, if_neg hne]

/-- **Files are removed** one after the other. -/
theorem removeAll_eq {directory : String} {p : Place} {held : String → List Message}
    {names : List String} (hnodup : names.Nodup) (hfits : ∀ name ∈ names, Disk.Fits directory name)
    (hp : d.IsDirectory directory p)
    (hread : ∀ name ∈ names, readFile d (Disk.join directory name) = .ok (held name)) (count : ℕ) :
    ∃ d', removeAll d count (names.map (Disk.join directory)) =
        (.ok (count + (names.flatMap held).length), d') ∧ d'.IsDirectory directory p ∧
      ∀ name, d'.at? (p ++ [name]) = if name ∈ names then none else d.at? (p ++ [name]) := by
  induction names generalizing d count with
  | nil => exact ⟨d, rfl, hp, fun _ => (if_neg List.not_mem_nil).symm⟩
  | cons name names ih =>
    obtain ⟨hnew, hnodup⟩ := List.nodup_cons.mp hnodup
    obtain ⟨hfirst, hread⟩ := List.forall_mem_cons.mp hread
    obtain ⟨hfit, hfits⟩ := List.forall_mem_cons.mp hfits
    obtain ⟨d₁, hremove, hp₁, herase, hothers⟩ := remove_file hfit hp hfirst
    have hread₁ : ∀ other ∈ names, readFile d₁ (Disk.join directory other) = .ok (held other) := by
      intro other hother
      rw [hothers other (hfits other hother) fun heq => hnew (heq ▸ hother)]
      exact hread other hother
    obtain ⟨d', hrest, hdirectory, hat⟩ := ih hnodup hfits hp₁ hread₁ (count + (held name).length)
    refine ⟨d', ?_, hdirectory, fun other => ?_⟩
    · rw [List.map_cons, removeAll, hfirst]
      dsimp only
      rw [hremove]
      dsimp only
      rw [hrest, List.flatMap_cons, List.length_append, Nat.add_assoc]
    · rw [hat, herase]
      by_cases hother : other ∈ names <;> by_cases heq : other = name <;> simp [hother, heq]

/-- **All messages are removed.** -/
theorem Carries.deleteAll (h : s.Carries d ms) : ∃ d',
    s.deleteAll d = (.ok ms.length, { s with ids := [] }, d') ∧
      ({ s with ids := [] } : FileStore).Carries d' [] := by
  obtain ⟨p, hp, hfiled⟩ := h.filed
  obtain ⟨hread, hperm⟩ := h.read hp hfiled
  have hnodup : (keyNames d p).Nodup := (List.mergeSort_perm _ _).nodup_iff.mpr hfiled.nodup
  obtain ⟨d', hremove, hp', hat⟩ := removeAll_eq hnodup
    (fun name hname => h.fits (hfiled.mem_keyNames.mp hname).2) hp hread 0
  refine ⟨d', ?_, carries_nil rfl hp' fun name hname hkey => ?_⟩
  · rw [FileStore.deleteAll, keyFiles_eq hp, hremove, Nat.zero_add, hperm.length_eq]
  · rw [Disk.mem_childNames, hat] at hname
    split at hname
    · exact hname rfl
    · rename_i hnot
      rw [hfiled.content name hkey, node?] at hname
      split at hname
      · exact hname rfl
      · exact hnot (hfiled.mem_keyNames.mpr ⟨hkey, ‹_›⟩)

/-! ### Opening anew -/

theorem taken_idsOf {l : List Message} (hperm : l.Perm ms) : Taken (idsOf l) ms := by
  intro id
  rw [idsOf, List.mem_filter, (hperm.map _).mem_iff, and_comm]
  simp

/-- **A store that is opened anew** on the files finds the ids of the messages. -/
theorem Carries.reload (h : s.Carries d ms) : ∃ ids,
    ({ s with ids := [] } : FileStore).load d = (.ok (), { s with ids := ids }, d) ∧
      Taken ids ms := by
  obtain ⟨p, hp, -⟩ := h.filed
  obtain ⟨l, hread, hperm⟩ := h.readAll
  have hfiles : ({ s with ids := [] } : FileStore).keyFiles d = s.keyFiles d := rfl
  refine ⟨idsOf l, ?_, taken_idsOf hperm⟩
  rw [load, hp.makeDirectory]
  simp only [hfiles, hread]

/-- The store finds a directory without files of its own when it is opened. -/
structure Vacant (s : FileStore) (d : Disk) : Prop where
  loaded : (s.load d).1 = .ok ()
  listed : ∃ names, (s.load d).2.2.names s.directory = .ok names ∧
    ∀ name ∈ names, ¬ isKeyFile name

theorem load_settings (s : FileStore) (d : Disk) :
    (s.load d).2.1.directory = s.directory ∧ (s.load d).2.1.unique = s.unique := by
  rw [load]
  split
  · exact ⟨rfl, rfl⟩
  · split <;> exact ⟨rfl, rfl⟩

/-- A store that has been opened has read its files, and their ids are taken. -/
theorem read_of_load (h : (s.load d).1 = .ok ()) :
    ∃ l, FileStore.readAll (s.load d).2.2 (s.keyFiles (s.load d).2.2) = .ok l ∧
      (s.load d).2.1.ids = idsOf l := by
  rw [load] at h ⊢
  rcases hmade : d.makeDirectory s.directory with ⟨made, d₁⟩
  rw [hmade] at h
  cases made with
  | error e => cases h
  | ok =>
    dsimp only at h ⊢
    cases hread : FileStore.readAll d₁ (s.keyFiles d₁) with
    | error e =>
      rw [hread] at h
      cases h
    | ok l => exact ⟨l, hread, rfl⟩

/-- **A store opened on an empty directory** carries nothing. -/
theorem Vacant.carries (h : s.Vacant d) : (s.load d).2.1.Carries (s.load d).2.2 [] := by
  obtain ⟨names, hnames, hnone⟩ := h.listed
  have hkeyFiles : s.keyFiles (s.load d).2.2 = [] := by
    rw [keyFiles, hnames]
    simp [List.filter_eq_nil_iff.mpr hnone]
  obtain ⟨l, hread, hids⟩ := read_of_load h.loaded
  rw [hkeyFiles] at hread
  cases hread
  obtain ⟨p, hp, rfl⟩ := Disk.names_eq_ok_iff.mp hnames
  exact carries_nil hids ((load_settings s d).1 ▸ hp) hnone

end FileStore

end SmsRelay
