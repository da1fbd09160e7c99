import Xv6.Image.Append
import Xv6.Names.Entries
import Xv6.Storage.Coherence

/-!
# The files of the image

The inodes of an image are numbered in the order in which `mkfs` makes them: the six
directories, then one file per argument. Seen from here an image is a list of nodes;
a directory is a list of entries and a file a list of bytes. What `mkfs` does to the
list is to add nodes and to append to them.
-/

namespace Xv6.Mkfs

open Program Storage Function List

variable {i : Nat} {files : List HostFile}

/-- A file or a directory of the image. -/
inductive Node where
  | dir (entries : List (Nat × Name))
  | file (bytes : List Byte)

def Node.type : Node → InodeType
  | dir _ => .dir
  | file _ => .file

def Node.content : Node → List Byte
  | dir entries => entries.flatMap direntBytes
  | file bytes => bytes

/-- The inode of a node. Every link count is 1. -/
structure Node.On (node : Node) (disk : Disk) (inum : Nat) : Prop where
  type : (disk.dinode inum).type = node.type
  nlink : (disk.dinode inum).nlink = 1
  content : disk.content inum = node.content

/-- The image holds the nodes, with numbers from 1 on. -/
structure Holds (nodes : List Node) (image : Image) : Prop extends Clear image where
  owned : image.marked.Owned superblock
  counter : image.freeinode = nodes.length + 1
  blank : ∀ inum, inum = 0 ∨ nodes.length < inum → image.disk.dinode inum = .fresh .free 0 0
  filled : ∀ inum bn, bn * BSIZE < (image.disk.dinode inum).size.toNat →
    (image.disk.file inum bn).isSome = true
  each : ∀ {i : Nat} {node : Node}, nodes[i]? = some node → node.On image.disk (i + 1)

variable {nodes : List Node} {image after : Image}

theorem holds_initial : Holds [] .initial := by
  have bare : Image.initial.marked.points = fun _ => 0 := by
    funext place
    exact if_pos rfl
  refine ⟨⟨fun _ _ => rfl, by decide⟩, ?_, rfl, fun _ _ => rfl, fun inum bn below => ?_,
    fun absent => nomatch absent⟩
  · unfold Disk.Owned
    rw [bare]
    refine ⟨by decide, fun place some => absurd rfl some, fun place _ some => absurd rfl some,
      fun b _ => ?_⟩
    have nobody : ¬Ownership.Held (fun _ : Place => 0) b := by
      rintro ⟨some, _, none⟩
      exact some none.symm
    rw [or_iff_left nobody]
    exact decide_eq_true_iff
  · exact absurd below (Nat.not_lt_zero _)

/-! ## The two operations -/

theorem Node.used (node : Node) : node.type ≠ .free := by
  cases node <;> simp [Node.type]

/-- A new inode is numbered after the others. -/
theorem sat_ialloc (holds : Holds nodes image) (node : Node) (empty : node.content = [])
    (mode : UInt32) :
    Sat (ialloc node.type mode) image (fun inum after =>
      inum = nodes.length + 1 ∧ Holds (nodes ++ [node]) after) fun _ _ => True := by
  let dip : Dinode := { Dinode.fresh node.type 0 mode with nlink := 1 }
  change image.freeinode = nodes.length + 1 ∧ Holds (nodes ++ [node])
    { image with freeinode := image.freeinode + 1, disk := image.disk.setDinode image.freeinode dip }
  rw [holds.counter]
  refine ⟨rfl, ?_⟩
  have unused : (image.disk.dinode (nodes.length + 1)).type = .free := by
    rw [holds.blank _ (.inr (Nat.lt_succ_self _))]
    rfl
  have bare : ∀ slot, dip.points image.disk.data slot = 0 := by
    intro slot
    cases slot <;> simp [Dinode.points, Dinode.fresh, dip]
  have points_eq := points_allocate unused bare
  have file_eq : (image.disk.setDinode (nodes.length + 1) dip).file = image.disk.file :=
    file_eq_of_points points_eq rfl
  have self_eq : (image.disk.setDinode (nodes.length + 1) dip).dinode (nodes.length + 1) = dip :=
    update_self _ _ _
  have other_eq : ∀ inum, inum ≠ nodes.length + 1 →
      (image.disk.setDinode (nodes.length + 1) dip).dinode inum = image.disk.dinode inum :=
    fun inum other => update_of_ne other _ _
  refine ⟨⟨holds.zeros, holds.within⟩, owned_of_points holds.owned points_eq rfl, by simp,
    fun inum outside => ?_, fun inum bn below => ?_, @fun i other found => ?_⟩
  · have other : inum ≠ nodes.length + 1 := by
      rw [length_append] at outside
      rintro rfl
      exact absurd outside (by simp)
    rw [other_eq inum other]
    refine holds.blank inum (outside.imp_right fun beyond => ?_)
    rw [length_append] at beyond
    exact (Nat.le_add_right _ _).trans_lt beyond
  · by_cases here : inum = nodes.length + 1
    · rw [here, self_eq] at below
      exact absurd below (Nat.not_lt_zero _)
    · rw [other_eq inum here] at below
      rw [file_eq]
      exact holds.filled inum bn below
  · -- a node of the longer list is an old one or the new one
    rcases Nat.lt_trichotomy i nodes.length with below | rfl | beyond
    · rw [getElem?_append_left below] at found
      obtain ⟨type_eq, nlink_eq, content_eq⟩ := holds.each found
      have other_eq := other_eq (i + 1) (by omega)
      constructor
      · rw [other_eq, type_eq]
      · rw [other_eq, nlink_eq]
      · unfold Disk.content at content_eq ⊢
        rw [file_eq, other_eq, content_eq]
    · rw [getElem?_concat_length] at found
      obtain rfl := Option.some.inj found
      constructor
      · rw [self_eq]
        rfl
      · rw [self_eq]
      · unfold Disk.content
        rw [self_eq, empty]
        rfl
    · rw [getElem?_eq_none (by simp; omega)] at found
      cases found

/-- Appending to a node. -/
theorem Holds.iappend (holds : Holds nodes image) {i : Nat} {node node' : Node}
    (found : nodes[i]? = some node) {p : List Byte} (type_eq : node'.type = node.type)
    (content_eq : node'.content = node.content ++ p) :
    Sat (iappend (i + 1) p) image (fun _ after => Holds (nodes.set i node') after)
      fun _ _ => True := by
  have used : (image.disk.dinode (i + 1)).type ≠ .free := by
    rw [(holds.each found).type]
    exact node.used
  have below := (List.getElem?_eq_some_iff.mp found).1
  refine (sat_iappend (i + 1) p holds.toClear holds.owned used).weaken fun _ after appends => ?_
  refine ⟨appends.toClear, appends.owned, ?_, fun inum outside => ?_, fun inum bn below => ?_,
    @fun j other found' => ?_⟩
  · rw [appends.freeinode, holds.counter, length_set]
  · rw [length_set] at outside
    rw [appends.dinode inum (by omega)]
    exact holds.blank inum outside
  · by_cases here : inum = i + 1
    · subst here
      exact appends.filled (holds.filled (i + 1)) below
    · rw [appends.dinode inum here] at below
      rw [appends.file, update_of_ne here]
      exact holds.filled inum bn below
  · by_cases here : j = i
    · subst here
      rw [List.getElem?_set_self below] at found'
      obtain rfl := Option.some.inj found'
      obtain ⟨type_eq', nlink_eq, content_eq'⟩ := holds.each found
      constructor
      · rw [appends.fields, type_eq]
        exact type_eq'
      · rw [appends.fields]
        exact nlink_eq
      · rw [appends.content, content_eq', content_eq]
    · rw [List.getElem?_set_ne (Ne.symm here)] at found'
      obtain ⟨type_eq', nlink_eq, content_eq'⟩ := holds.each found'
      have other_eq := appends.dinode (j + 1) (by omega)
      constructor
      · rw [other_eq, type_eq']
      · rw [other_eq, nlink_eq]
      · rw [appends.content_of_ne (by omega), content_eq']

/-- A directory gets one more entry. -/
theorem Holds.append (holds : Holds nodes image) {entries : List (Nat × Name)}
    (found : nodes[i]? = some (.dir entries)) (inum : Nat) (name : Name) :
    Sat (append (i + 1) inum name) image
      (fun _ after => Holds (nodes.set i (.dir (entries ++ [(inum, name)]))) after)
      fun _ _ => True :=
  holds.iappend found rfl (by simp [Node.content])

/-- The nodes after a new one was entered in a directory. -/
def enter (nodes : List Node) (i : Nat) (entries : List (Nat × Name)) (name : Name) (node : Node) :
    List Node :=
  nodes.set i (.dir (entries ++ [(nodes.length + 1, name)])) ++ [node]

/-! ## The directories -/

/-- A new node behind the others. -/
theorem getElem?_new (nodes : List Node) (node : Node) : (nodes ++ [node])[nodes.length]? = some node :=
  getElem?_concat_length

theorem set_new (nodes : List Node) (node node' : Node) :
    (nodes ++ [node]).set nodes.length node' = nodes ++ [node'] := by
  rw [set_append_right _ _ le_rfl, Nat.sub_self]
  rfl

theorem Holds.makedir (holds : Holds nodes image) {entries : List (Nat × Name)}
    (found : nodes[i]? = some (.dir entries)) (name : Name) :
    Sat (makedir (i + 1) name) image (fun inum after => inum = nodes.length + 1 ∧
      Holds (enter nodes i entries name
        (.dir [(nodes.length + 1, DOT), (i + 1, DOTDOT)])) after) fun _ _ => True := by
  have below := (List.getElem?_eq_some_iff.mp found).1
  refine (sat_ialloc holds (.dir []) rfl DEFAULT_MODE).bind fun inum made new => ?_
  obtain ⟨rfl, holds⟩ := new
  refine (holds.append (getElem?_new _ _) (nodes.length + 1) DOT).bind fun _ self holds => ?_
  rw [set_new] at holds
  refine (holds.append (getElem?_new _ _) (i + 1) DOTDOT).bind fun _ parent holds => ?_
  rw [set_new] at holds
  have found' : (nodes ++ [Node.dir [(nodes.length + 1, DOT), (i + 1, DOTDOT)]])[i]? =
      some (.dir entries) := (List.getElem?_append_left below).trans found
  refine (holds.append found' (nodes.length + 1) name).bind fun _ after holds => ?_
  refine ⟨rfl, ?_⟩
  rw [set_append_left _ _ below] at holds
  exact holds

/-- The numbers of the directories. -/
def layout : Directories :=
  { rootino := 1, devino := 2, binino := 3, homeino := 4, superuserino := 5, etcino := 6 }

/-- The entries that `makedirs` makes in each of its directories. -/
def made : Nat → List (Nat × Name)
  | 1 => [(1, DOT), (1, DOTDOT), (2, DEV), (3, BIN), (4, HOME), (6, ETC)]
  | 4 => [(4, DOT), (1, DOTDOT), (5, ROOT)]
  | 5 => [(5, DOT), (4, DOTDOT)]
  | inum => [(inum, DOT), (1, DOTDOT)]

theorem Holds.makedirs (holds : Holds [] image) : Sat makedirs image (fun dirs after =>
    dirs = layout ∧ Holds ((List.range' 1 6).map fun inum => .dir (made inum)) after)
    fun _ _ => True := by
  refine (sat_ialloc holds (.dir []) rfl DEFAULT_MODE).bind fun rootino _ new => ?_
  obtain rfl : rootino = 1 := new.1
  rw [if_pos rfl]
  refine (new.2.append (i := 0) rfl 1 DOT).bind fun _ _ holds => ?_
  refine (holds.append (i := 0) rfl 1 DOTDOT).bind fun _ _ holds => ?_
  refine (holds.makedir (i := 0) rfl DEV).bind fun devino _ new => ?_
  obtain rfl : devino = 2 := new.1
  refine (new.2.makedir (i := 0) rfl BIN).bind fun binino _ new => ?_
  obtain rfl : binino = 3 := new.1
  refine (new.2.makedir (i := 0) rfl HOME).bind fun homeino _ new => ?_
  obtain rfl : homeino = 4 := new.1
  refine (new.2.makedir (i := 3) rfl ROOT).bind fun superuserino _ new => ?_
  obtain rfl : superuserino = 5 := new.1
  refine (new.2.makedir (i := 0) rfl ETC).bind fun etcino _ new => ?_
  obtain rfl : etcino = 6 := new.1
  exact ⟨rfl, new.2⟩

/-! ## The files -/

/-- The entries of a directory: those of `makedirs`, and one for each file that goes
to it. -/
def entries (files : List HostFile) (dir : Nat) : List (Nat × Name) :=
  made dir ++ (files.zipIdx 7).filterMap fun (file, inum) =>
    if (target layout file.argv).2 = dir then some (inum, (target layout file.argv).1) else none

/-- The nodes of the image. -/
def tree (files : List HostFile) : List Node :=
  (List.range' 1 6).map (fun dir => .dir (entries files dir)) ++
    files.map fun file => .file file.bytes

theorem entries_concat (files : List HostFile) (file : HostFile) (dir : Nat) :
    entries (files ++ [file]) dir = entries files dir ++
      if (target layout file.argv).2 = dir then
        [(files.length + 7, (target layout file.argv).1)] else [] := by
  unfold entries
  rw [zipIdx_append, filterMap_append, append_assoc, Nat.add_comm 7]
  by_cases here : (target layout file.argv).2 = dir
  · simp [here]
  · simp [here]

theorem length_tree (files : List HostFile) : (tree files).length = files.length + 6 := by
  simp [tree, Nat.add_comm]

theorem getElem?_tree (files : List HostFile) (below : i < 6) :
    (tree files)[i]? = some (.dir (entries files (i + 1))) := by
  unfold tree
  rw [getElem?_append_left (by simpa using below), getElem?_map,
    getElem?_range' (by exact below), Nat.one_mul, Nat.add_comm 1]
  rfl

theorem getElem?_tree_file {k : Nat} (below : k < files.length) :
    (tree files)[k + 6]? = some (.file files[k].bytes) := by
  unfold tree
  rw [getElem?_append_right (by simp)]
  simp [below]

/-- A file goes to `/bin`, to the directory of the superuser or to `/etc`. -/
theorem target_cases (argv : List Byte) : (target layout argv).2 = 3 ∨
    (target layout argv).2 = 5 ∨ (target layout argv).2 = 6 := by
  unfold target
  split
  · exact .inl rfl
  · split
    · exact .inr (.inr rfl)
    · exact .inr (.inl rfl)

theorem tree_concat (files : List HostFile) (file : HostFile)
    (here : (target layout file.argv).2 = i + 1) :
    tree (files ++ [file]) = enter (tree files) i (entries files (i + 1))
      (target layout file.argv).1 (.file file.bytes) := by
  have below : i < 6 := by
    have cases_of := target_cases file.argv
    omega
  unfold enter
  rw [length_tree]
  unfold tree
  rw [map_append, ← append_assoc, set_append_left _ _ (by simpa using below)]
  congr 2
  refine ext_getElem? fun j => ?_
  rw [getElem?_set]
  by_cases inside : j < 6
  · rw [getElem?_map, getElem?_range' (by exact inside), Option.map_some, entries_concat,
      here, Nat.one_mul, Nat.add_comm 1]
    by_cases same : i = j
    · subst same
      simp [below]
    · simp [same, inside, Nat.add_comm 1]
  · have other : i ≠ j := by omega
    simp [other, inside]

/-- What is read of a file goes behind what was read before. -/
theorem Holds.reads {bytes : List Byte} (reads : List (List Byte))
    (holds : Holds (nodes ++ [.file bytes]) image) :
    Sat (forM reads (Mkfs.iappend (nodes.length + 1))) image
      (fun _ after => Holds (nodes ++ [.file (bytes ++ reads.flatten)]) after) fun _ _ => True := by
  induction reads generalizing bytes image with
  | nil =>
    rw [flatten_nil, append_nil]
    exact holds
  | cons buf rest ih =>
    rw [forM_cons]
    have step := @Holds.iappend _ _ holds _ _ (.file (bytes ++ buf)) (getElem?_new _ _) buf rfl rfl
    refine step.bind fun _ middle holds => ?_
    rw [set_new] at holds
    rw [flatten_cons, ← append_assoc]
    exact ih holds

theorem Holds.addfile (holds : Holds (tree files) image) (file : HostFile) :
    Sat (addfile layout file) image (fun _ after => Holds (tree (files ++ [file])) after)
      fun _ _ => True := by
  unfold Mkfs.addfile
  rw [sat_ite]
  split
  · trivial
  cases opened : file.reads with
  | none => trivial
  | some reads =>
    obtain ⟨i, here⟩ : ∃ i, (target layout file.argv).2 = i + 1 := by
      have cases_of := target_cases file.argv
      exact ⟨(target layout file.argv).2 - 1, by omega⟩
    have below : i < 6 := by
      have cases_of := target_cases file.argv
      omega
    have bytes_eq : file.bytes = reads.flatten := by
      rw [HostFile.bytes, opened]
      rfl
    have length_lt : i < (tree files).length := by
      rw [length_tree]
      omega
    rw [tree_concat files file here, bytes_eq]
    generalize target layout file.argv = chosen at here ⊢
    obtain ⟨name, dir⟩ := chosen
    obtain rfl : dir = i + 1 := here
    refine (sat_ialloc holds (.file []) rfl _).bind fun inum _ new => ?_
    obtain ⟨rfl, holds⟩ := new
    have found : (tree files ++ [.file []])[i]? = some (.dir (entries files (i + 1))) :=
      (getElem?_append_left length_lt).trans (getElem?_tree files below)
    refine (holds.append found _ name).bind fun _ _ holds => ?_
    rw [set_append_left _ _ length_lt] at holds
    have rest := holds.reads reads
    rw [length_set, nil_append] at rest
    exact rest

theorem Holds.addfiles (holds : Holds (tree files) image) (rest : List HostFile) :
    Sat (forM rest (Mkfs.addfile layout)) image (fun _ after => Holds (tree (files ++ rest)) after)
      fun _ _ => True := by
  induction rest generalizing files image with
  | nil =>
    rw [append_nil]
    exact holds
  | cons file rest ih =>
    rw [forM_cons]
    refine (holds.addfile file).bind fun _ _ holds => ?_
    rw [append_cons]
    exact ih holds

/-- The image that `mkfs` makes. -/
structure Built (files : List HostFile) (image : Image) : Prop extends Holds (tree files) image where
  bitmap : image.disk = image.marked

theorem Holds.main (holds : Holds [] image) (files : List HostFile) :
    Sat (main files) image (fun _ image => Built files image) fun _ _ => True := by
  refine holds.makedirs.bind fun dirs _ made => ?_
  obtain ⟨rfl, holds⟩ := made
  have empty : tree [] = (range' 1 6).map fun dir => .dir (made dir) := rfl
  rw [← empty] at holds
  refine (holds.addfiles files).bind fun _ filled holds => ?_
  rw [nil_append] at holds
  rw [sat_bind, sat_get]
  unfold balloc
  rw [sat_ite]
  split
  · refine ⟨⟨⟨holds.zeros, holds.within⟩, holds.owned, holds.counter, holds.blank, holds.filled,
      fun found => ?_⟩, rfl⟩
    obtain ⟨type_eq, nlink_eq, content_eq⟩ := holds.each found
    exact ⟨type_eq, nlink_eq, content_eq⟩
  · trivial

theorem Holds.built {start : Image} (holds : Holds [] start)
    (run : Mkfs.main files start = .ok () image) : Built files image :=
  (holds.main files).ok run

/-- The kernel before it reads anything of the image. -/
def mounted (image : Image) : Kernel :=
  { Kernel.boot image.disk with icache := fun _ => Inode.zero }

/-- The inodes that `mkfs` makes are among those of the superblock. However processes use
them from then on, the blocks stay owned and no file gets a hole. -/
theorem image_stays_sound (run : main files .initial = .ok () image)
    (fits : files.length + 6 < NINODES) {labels : List (ProcPtr × InodeCall)} {last : Kernel}
    (used : Calls (mounted image) labels last) :
    (∀ inum, NINODES ≤ inum → (image.disk.dinode inum).type = .free) ∧
      last.disk.Owned last.sb ∧ ∀ inum, (last.disk.dinode inum).type ≠ .free →
        (last.disk.dinode inum).type ≠ .dev → last.disk.Filled inum := by
  have built := holds_initial.built run
  have owned : image.disk.Owned superblock := by
    rw [built.bitmap]
    exact built.owned
  have coherent := @coherent_of_run (mounted image) _ _ owned
    (fun inum _ _ bn => built.filled inum bn) (fun _ => ⟨rfl, rfl⟩) used
  refine ⟨fun inum above => ?_, coherent.sound.owned, coherent.sound.filled⟩
  have beyond : (tree files).length < inum := by
    rw [length_tree]
    omega
  rw [built.blank inum (.inr beyond)]
  rfl

/-- Init reads the root directory. -/
theorem image_stays_sound_root : ∃ image last, main [] .initial = .ok () image ∧
    Calls (mounted image) [(0, .iget 1), (0, .ilock 0), (0, .iunlock 0)] last ∧
    last.disk.Owned last.sb := by
  have evaluated : (outcome (main []) .initial).any (fun result =>
      (Transition.follow Kernel.perform (fun kernel label => label.2.Disciplined kernel label.1)
        (mounted result.2) [(0, .iget 1), (0, .ilock 0), (0, .iunlock 0)]).isSome) = true := by
    decide +kernel
  obtain ⟨_, image, run, reached⟩ := exists_of_outcome evaluated
  have used := Transition.Steps.of_follow (Option.some_get reached).symm
  exact ⟨image, _, run, used, (image_stays_sound run (by decide) used).2.1⟩

end Xv6.Mkfs
