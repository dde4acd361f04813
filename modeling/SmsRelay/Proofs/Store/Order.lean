import SmsRelay.Proofs.Store.Growth

/-!
# Directories in order

The directory of a store is in order if each file of the store can be read and has its last line
finished. A store that is opened on such a directory keeps it in order, whatever comes to it, and
takes for taken exactly the correlation ids of the messages in its files.

## Implementation notes

Nothing is asked of who has written the files. A directory whose files are in order need not have
been written by a store: its files may have other names than phone numbers make.

The disk has no notion of a directory that lists a name twice or lists what is no name; `Ready`
excludes both.

## Main results

* `InOrder.put`, `InOrder.deleteAll`: the directory stays in order.
* `InOrder.perform`: so it does after each operation.
* `Ready.inOrder`: it is in order when the store has been opened.
-/

namespace SmsRelay

theorem Taken.congr {ids : List String} {ms ms' : List Message} (h : Taken ids ms)
    (hmem : ∀ m, m ∈ ms' ↔ m ∈ ms) : Taken ids ms' := by
  intro id
  rw [h id, List.mem_map, List.mem_map]
  simp only [hmem]

namespace FileStore

/-- What is read from a file, nothing if it cannot be read. -/
def held (s : FileStore) (d : Disk) (name : String) : List Message :=
  match readFile d (Disk.join s.directory name) with
  | .ok ms => ms
  | .error _ => []

theorem held_of_read {s : FileStore} {d : Disk} {name : String} {ms : List Message}
    (h : readFile d (Disk.join s.directory name) = .ok ms) : s.held d name = ms := by
  rw [held, h]

/-- All that is read from the files of a directory, one after the other. -/
def holdings (s : FileStore) (d : Disk) (p : Place) : List Message :=
  (keyNames d p).flatMap (s.held d)

/-- The directory of the store, which stands at `p`, is in order. -/
structure InOrder (s : FileStore) (d : Disk) (p : Place) : Prop where
  directory : d.IsDirectory s.directory p
  nodup : ((d.childNames p).filter isKeyFile).Nodup
  files : ∀ name ∈ keyNames d p, Disk.Fits s.directory name ∧
    ∃ content ms, d.at? (p ++ [name]) = some (.file content) ∧ IsFinished content ∧
      readLines (Disk.join s.directory name) (lines content) = .ok ms
  taken : s.unique → Taken s.ids (s.holdings d p)

variable {s : FileStore} {d : Disk} {p : Place} {name : String} {m : Message}

/-! ### Reading -/

theorem InOrder.read (h : s.InOrder d p) (hname : name ∈ keyNames d p) :
    readFile d (Disk.join s.directory name) = .ok (s.held d name) := by
  obtain ⟨hfits, content, ms, hfile, -, hread⟩ := h.files name hname
  have hms := readFile_eq_ok_iff.mpr ⟨_, _, h.directory.resolve_join hfits, hfile, hread⟩
  rw [hms, held_of_read hms]

/-- **All messages are listed.** -/
theorem InOrder.list (h : s.InOrder d p) :
    ∃ l, s.list d = .ok l ∧ l.Perm (s.holdings d p) := by
  refine ⟨(s.holdings d p).mergeSort fun a b => a.createdAt.le b.createdAt, ?_,
    List.mergeSort_perm _ _⟩
  rw [FileStore.list, keyFiles_eq h.directory, readAll_map fun name hname => h.read hname]
  rfl

/-- A file to which something is added, whether it was there or not. -/
theorem InOrder.file (h : s.InOrder d p) (hkey : isKeyFile name) {content : Bytes}
    (hholds : d.Holds (p ++ [name]) content) : IsFinished content ∧
      ∃ old, readLines (Disk.join s.directory name) (lines content) = .ok old ∧
        ∀ k, k ∈ old ↔ name ∈ keyNames d p ∧ k ∈ s.held d name := by
  rcases hholds with hfile | ⟨hnone, rfl⟩
  · have hname : name ∈ keyNames d p := mem_keyNames.mpr ⟨hkey, by rw [hfile]; nofun⟩
    obtain ⟨hfits, content', ms, hfile', hfinished, hread⟩ := h.files name hname
    cases hfile.symm.trans hfile'
    have hms := readFile_eq_ok_iff.mpr ⟨_, _, h.directory.resolve_join hfits, hfile, hread⟩
    refine ⟨hfinished, ms, hread, fun k => ?_⟩
    rw [held_of_read hms]
    exact (and_iff_right hname).symm
  · refine ⟨fun _ hg => absurd hg List.not_mem_nil, [], rfl, fun k => ?_⟩
    refine ⟨fun hk => absurd hk List.not_mem_nil, fun hk => ?_⟩
    exact absurd hnone (mem_keyNames.mp hk.1).2

/-- What is read from a file depends on what stands at its place. -/
theorem InOrder.held_eq (h : s.InOrder d p) {s' : FileStore} {d' : Disk}
    (hdirectory : s'.directory = s.directory) (hp : d'.IsDirectory s.directory p)
    (hname : name ∈ keyNames d p) (hat : d'.at? (p ++ [name]) = d.at? (p ++ [name])) :
    s'.held d' name = s.held d name := by
  obtain ⟨hfits, content, ms, hfile, -, hread⟩ := h.files name hname
  have hms := readFile_eq_ok_iff.mpr ⟨_, _, h.directory.resolve_join hfits, hfile, hread⟩
  have hms' := readFile_eq_ok_iff.mpr ⟨_, _, hp.resolve_join hfits, hat.trans hfile, hread⟩
  rw [held_of_read hms, held_of_read (by rw [hdirectory]; exact hms')]

/-! ### Writing -/

/-- What is to come on the disk does not matter to the order. -/
theorem InOrder.faults (h : s.InOrder d p) (faults : List (Option DiskError)) :
    s.InOrder { d with faults := faults } p := by
  have hp : ({ d with faults := faults } : Disk).IsDirectory s.directory p :=
    h.directory.mono rfl fun _ hq => hq
  have hholdings : s.holdings { d with faults := faults } p = s.holdings d p :=
    List.flatMap_congr fun name hname => h.held_eq rfl hp hname rfl
  refine ⟨hp, h.nodup, h.files, ?_⟩
  rw [hholdings]
  exact h.taken

/-- A file that is put into the directory. -/
theorem mem_keyNames_put (hname : isKeyFile name) (n : Node) {other : String} :
    other ∈ keyNames (d.put (p ++ [name]) n) p ↔
      other = name ∨ other ≠ name ∧ other ∈ keyNames d p := by
  rw [mem_keyNames, mem_keyNames, Disk.at?_put_child]
  by_cases heq : other = name
  · simp [heq, hname]
  · simp [heq]

/-- Only the file of the message has become another one. -/
theorem mem_holdings_accept {d' : Disk} {old : List Message}
    (hnames : ∀ other, other ∈ keyNames d' p ↔
      other = fileName m ∨ other ≠ fileName m ∧ other ∈ keyNames d p)
    (hself : (s.accept m).held d' (fileName m) = old ++ [m])
    (hold : ∀ k, k ∈ old ↔ fileName m ∈ keyNames d p ∧ k ∈ s.held d (fileName m))
    (hothers : ∀ other ∈ keyNames d p, other ≠ fileName m →
      (s.accept m).held d' other = s.held d other) {k : Message} :
    k ∈ (s.accept m).holdings d' p ↔ k ∈ s.holdings d p ++ [m] := by
  rw [List.mem_append, List.mem_singleton, holdings, holdings, List.mem_flatMap, List.mem_flatMap]
  constructor
  · rintro ⟨other, hother, hk⟩
    rcases (hnames other).mp hother with rfl | ⟨hne, hother⟩
    · rw [hself, List.mem_append, List.mem_singleton, hold] at hk
      exact hk.imp_left fun hk => ⟨_, hk⟩
    · rw [hothers other hother hne] at hk
      exact .inl ⟨other, hother, hk⟩
  · rintro (⟨other, hother, hk⟩ | rfl)
    · by_cases heq : other = fileName m
      · refine ⟨fileName m, (hnames _).mpr (.inl rfl), ?_⟩
        rw [hself, List.mem_append, hold]
        exact .inl (heq ▸ ⟨hother, hk⟩)
      · refine ⟨other, (hnames other).mpr (.inr ⟨heq, hother⟩), ?_⟩
        rwa [hothers other hother heq]
    · refine ⟨fileName k, (hnames _).mpr (.inl rfl), ?_⟩
      rw [hself]
      exact List.mem_append_right _ List.mem_cons_self

/-- **A line is written** to a directory in order. -/
theorem InOrder.accept (h : s.InOrder d p) (hkey : isKey m.phone) (hcreated : m.createdAt.isValid)
    (hfits : Disk.Fits s.directory (fileName m)) {content : Bytes}
    (hholds : d.Holds (p ++ [fileName m]) content) :
    (s.accept m).InOrder (d.put (p ++ [fileName m]) (.file (content ++ line m))) p := by
  have hkeyFile : isKeyFile (fileName m) := isKeyFile_of_isKey hkey
  obtain ⟨hfinished, old, hread, hold⟩ := h.file hkeyFile hholds
  have hdirectory := directory_accept s m
  generalize hput : d.put (p ++ [fileName m]) (.file (content ++ line m)) = d'
  have hat : ∀ other, d'.at? (p ++ [other]) =
      if other = fileName m then some (.file (content ++ line m)) else d.at? (p ++ [other]) :=
    fun other => hput ▸ d.at?_put_child p (fileName m) other _
  have hnames : ∀ other, other ∈ keyNames d' p ↔
      other = fileName m ∨ other ≠ fileName m ∧ other ∈ keyNames d p :=
    fun other => hput ▸ mem_keyNames_put hkeyFile _
  have hp : d'.IsDirectory s.directory p := by
    refine hput ▸ h.directory.put (fun hnode => ?_) _
    rcases hholds with hfile | ⟨hnone, -⟩
    · cases hnode.symm.trans hfile
    · cases hnode.symm.trans hnone
  have hnew := readLines_append_line hread hfinished hcreated
  have hself : (s.accept m).held d' (fileName m) = old ++ [m] := by
    refine held_of_read ?_
    rw [hdirectory]
    exact readFile_eq_ok_iff.mpr ⟨_, _, hp.resolve_join hfits, by rw [hat, if_pos rfl], hnew⟩
  refine ⟨hdirectory ▸ hp, hput ▸ nodup_childNames_put h.nodup hkeyFile _, fun other hother => ?_,
    fun hunique => ?_⟩
  · rw [hdirectory, hat]
    rcases (hnames other).mp hother with rfl | ⟨hne, hother⟩
    · rw [if_pos rfl]
      exact ⟨hfits, _, _, rfl, isFinished_append_line content m, hnew⟩
    · rw [if_neg hne]
      exact h.files other hother
  · have htaken := taken_accept (m := m) h.taken ((unique_accept s m).symm.trans hunique)
    exact htaken.congr fun k => mem_holdings_accept hnames hself hold fun other hother hne =>
      h.held_eq hdirectory hp hother (by rw [hat, if_neg hne])

/-- **What becomes of a message**: the directory stays in order. -/
theorem InOrder.put (h : s.InOrder d p) (hcreated : m.createdAt.isValid) :
    (put (s, d) m).2.1.InOrder (put (s, d) m).2.2 p := by
  rcases put_cases s d m with ⟨-, faults, hput⟩ | ⟨hkey, q, content, hresolve, hholds, hput⟩
  · rw [hput]
    exact h.faults faults
  · rw [hput]
    obtain ⟨hfits, rfl⟩ := h.directory.of_resolve_join (isName_of_isKey hkey) hresolve
    exact (h.faults d.faults.tail).accept hkey hcreated hfits hholds

/-- **What becomes of a batch.** -/
theorem InOrder.insertBatch (h : s.InOrder d p) {b : List Message}
    (hcreated : ∀ m ∈ b, m.createdAt.isValid) :
    ∃ s' d', ((Store.files s d).insertBatch b).2 = .files s' d' ∧ s'.InOrder d' p ∧
      s'.directory = s.directory ∧ s'.unique = s.unique := by
  rw [Store.insertBatch_eq]
  induction b generalizing s d with
  | nil => exact ⟨s, d, rfl, h, rfl, rfl⟩
  | cons m b ih =>
    obtain ⟨hm, hb⟩ := List.forall_mem_cons.mp hcreated
    obtain ⟨hdirectory, hunique⟩ := put_settings s d m
    obtain ⟨s', d', hstore, horder, hdirectory', hunique'⟩ := ih (h.put hm) hb
    exact ⟨s', d', hstore, horder, hdirectory'.trans hdirectory, hunique'.trans hunique⟩

/-! ### Removing -/

/-- A directory without files of the store. -/
theorem inOrder_nil (hids : s.ids = []) (hp : d.IsDirectory s.directory p)
    (hnone : ∀ name ∈ d.childNames p, ¬ isKeyFile name) : s.InOrder d p := by
  have hnames : keyNames d p = [] := by
    rw [keyNames, List.filter_eq_nil_iff.mpr hnone, List.mergeSort_nil]
  refine ⟨hp, ?_, ?_, fun _ => ?_⟩
  · rw [List.filter_eq_nil_iff.mpr hnone]
    exact List.nodup_nil
  · rw [hnames]
    exact fun _ h => absurd h List.not_mem_nil
  · rw [holdings, hnames, hids]
    exact taken_nil

/-- **All messages are removed.** -/
theorem InOrder.deleteAll (h : s.InOrder d p) : ∃ d',
    s.deleteAll d = (.ok (s.holdings d p).length, { s with ids := [] }, d') ∧
      ({ s with ids := [] } : FileStore).InOrder d' p := by
  have hnodup : (keyNames d p).Nodup := (List.mergeSort_perm _ _).nodup_iff.mpr h.nodup
  obtain ⟨d', hremove, hp', hat⟩ := removeAll_eq hnodup (fun name hname => (h.files name hname).1)
    h.directory (fun name hname => h.read hname) 0
  refine ⟨d', ?_, inOrder_nil rfl hp' fun name hname hkey => ?_⟩
  · rw [FileStore.deleteAll, keyFiles_eq h.directory, hremove, Nat.zero_add]
    rfl
  · rw [Disk.mem_childNames, hat] at hname
    split at hname
    · exact hname rfl
    · rename_i hnot
      exact hnot (mem_keyNames.mpr ⟨hkey, hname⟩)

/-- **Each operation** leaves the directory in order. -/
theorem InOrder.perform (h : s.InOrder d p) {op : StoreOp}
    (hcreated : ∀ m ∈ op.messages, m.createdAt.isValid) :
    ∃ s' d', ((Store.files s d).perform op).2 = .files s' d' ∧ s'.InOrder d' p ∧
      s'.directory = s.directory ∧ s'.unique = s.unique := by
  cases op with
  | insert m => exact h.insertBatch hcreated
  | insertBatch b => exact h.insertBatch hcreated
  | findByPhone | list => exact ⟨s, d, rfl, h, rfl, rfl⟩
  | deleteAll =>
    obtain ⟨d', hdelete, horder⟩ := h.deleteAll
    refine ⟨{ s with ids := [] }, d', ?_, horder, rfl, rfl⟩
    rw [Store.perform, Store.deleteAll, hdelete]

/-! ### Opening -/

/-- The store finds a directory in order when it is opened. -/
structure Ready (s : FileStore) (d : Disk) : Prop where
  loaded : (s.load d).1 = .ok ()
  listed : ∃ names, (s.load d).2.2.names s.directory = .ok names ∧ names.Nodup ∧
    ∀ name ∈ names, isKeyFile name → Disk.IsName name ∧
      ∀ content ∈ ((s.load d).2.2.read (Disk.join s.directory name)).toOption, IsFinished content

/-- **A store that is opened** on a directory in order. -/
theorem Ready.inOrder (h : s.Ready d) : ∃ p, (s.load d).2.1.InOrder (s.load d).2.2 p := by
  obtain ⟨names, hnames, hnodup, hsound⟩ := h.listed
  obtain ⟨p, hp, rfl⟩ := Disk.names_eq_ok_iff.mp hnames
  obtain ⟨l, hread, hids⟩ := read_of_load h.loaded
  obtain ⟨hdirectory, -⟩ := load_settings s d
  have hall : ∀ name ∈ keyNames (s.load d).2.2 p,
      ∃ ms, readFile (s.load d).2.2 (Disk.join s.directory name) = .ok ms := by
    have hreadable := FileStore.readAll_iff.mp ⟨l, hread⟩
    rwa [keyFiles_eq hp, List.forall_mem_map] at hreadable
  refine ⟨p, hdirectory ▸ hp, hnodup.filter _, fun name hname => ?_, fun _ => ?_⟩
  · obtain ⟨hkey, hthere⟩ := mem_keyNames.mp hname
    obtain ⟨ms, hms⟩ := hall name hname
    obtain ⟨hisName, hfinished⟩ := hsound name (Disk.mem_childNames.mpr hthere) hkey
    obtain ⟨q, content, hresolve, hfile, hlines⟩ := readFile_eq_ok_iff.mp hms
    obtain ⟨hfits, rfl⟩ := hp.of_resolve_join hisName hresolve
    rw [hdirectory]
    exact ⟨hfits, content, ms, hfile, hfinished content ((mem_read_iff hp hfits).mpr hfile), hlines⟩
  · have hheld : ∀ name ∈ keyNames (s.load d).2.2 p,
        readFile (s.load d).2.2 (Disk.join s.directory name)
          = .ok ((s.load d).2.1.held (s.load d).2.2 name) := by
      intro name hname
      obtain ⟨ms, hms⟩ := hall name hname
      rw [hms, held_of_read (by rw [hdirectory]; exact hms)]
    rw [keyFiles_eq hp, readAll_map hheld] at hread
    cases hread
    rw [hids]
    exact taken_idsOf (.refl _)

end FileStore

end SmsRelay
