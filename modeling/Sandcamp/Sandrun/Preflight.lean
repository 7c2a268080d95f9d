import Sandcamp.Foundations.MountTable
import Sandcamp.Sandrun.KernelWalk

/-!
# The preflight and the mounts (linux.rs:96-136, 583-668, 1201-1292)

`prepare_workdir` and `prepare_executable` look at the merged rootfs before anything is
mounted on it; `chdir` and `execve` walk their paths afterwards, from the new root, over
everything that is mounted by then. A mount shows its own tree where it lies, whatever the
preflight has found there.
-/

namespace Sandcamp.Sandrun
open Foundations Foundations.UnixPath

abbrev Mounts := MountTable Attributes

/-! ### Applying the mounts -/

/-- Where a path of the host leads, if that is in the rootfs: its names are walked from what lies
on top there. A link may lead anywhere, for its text is read on the host. -/
inductive Leads (rootfs path : Bytes) (table : Mounts) : Option Place → Prop
  | names {inner : List Bytes} {place : Place} :
      stripPrefix path rootfs = some (inner.map .normal) → table.Walk table.top inner place →
      Leads rootfs path table (some place)
  | link {before after : List Bytes} {name text : Bytes} {here : Place} (place : Option Place) :
      stripPrefix path rootfs = some ((before ++ name :: after).map .normal) →
      table.Walk table.top before here →
      table.kindAt (here.1, here.2 ++ [name]) = some (.symlink text) →
      Leads rootfs path table place

/-- `mount_raw` on this target: what it shows must be a directory where a directory is, and no
directory where none is. -/
inductive MountRaw (rootfs target : Bytes) (shown : Shown Attributes) (table : Mounts) : Mounts → Prop
  | inside {place : Place} {kind : FileKind} : Leads rootfs target table (some place) →
      table.kindAt place = some kind →
      (kind = .directory ↔ (shown.lookup []).map Node.kind = some .directory) →
      MountRaw rootfs target shown table (table.mount place shown)
  | outside : Leads rootfs target table none → MountRaw rootfs target shown table table

/-- `OpenOptions` with `create_new(true)` and mode 0644, masked or not. -/
inductive CreatesFile (table : Mounts) (parent : Place) (name : Bytes) : Mounts → Prop
  | intro {tree tree' : Tree} {attributes : Attributes} :
      table.treeOf parent.1 = some tree →
      tree.create parent.2 name ⟨.regular [], attributes⟩ = some tree' →
      CreatesFile table parent name (table.setTree parent.1 tree')

/-- `ensure_regular_mount_target` (`linux.rs:1259-1292`) for this name in a directory. -/
inductive EnsureRegularMountTarget (rootfs directory name : Bytes) (table : Mounts) : Mounts → Prop
  | regular {parent : Place} {contents : Bytes} :
      Leads rootfs directory table (some parent) →
      table.kindAt (table.cover (parent.1, parent.2 ++ [name])) = some (.regular contents) →
      EnsureRegularMountTarget rootfs directory name table table
  | link {parent : Place} {tree : Tree} {text : Bytes} {table' : Mounts}
      (hlink : tree.kindAt (parent.2 ++ [name]) = some (.symlink text)) :
      Leads rootfs directory table (some parent) → table.treeOf parent.1 = some tree →
      CreatesFile (table.setTree parent.1 (tree.removeLink (parent.2 ++ [name]) text hlink)) parent
        name table' →
      EnsureRegularMountTarget rootfs directory name table table'
  | missing {parent : Place} {table' : Mounts} :
      Leads rootfs directory table (some parent) →
      table.kindAt (parent.1, parent.2 ++ [name]) = none → CreatesFile table parent name table' →
      EnsureRegularMountTarget rootfs directory name table table'
  | outside : Leads rootfs directory table none →
      EnsureRegularMountTarget rootfs directory name table table

/-- `apply_mount` (`linux.rs:1201-1257`) where it succeeds. What a bind or proc shows is
anything; a tmpfs is empty. -/
inductive ApplyMount (rootfs : Bytes) (table : Mounts) : MountOperation → Mounts → Prop
  | proc {target : Bytes} {tree : Tree} {table' : Mounts} :
      MountRaw rootfs target (.directory tree) table table' →
      ApplyMount rootfs table (.proc target) table'
  | bind {bind : PreparedBind} {shown : Shown Attributes} {table' : Mounts} :
      MountRaw rootfs bind.target shown table table' →
      ApplyMount rootfs table (.bind bind) table'
  | tmpfs {target : Bytes} {mode : ℕ} {table' : Mounts} :
      MountRaw rootfs target (.directory (FileTree.empty ⟨0, 0, mode⟩)) table table' →
      ApplyMount rootfs table (.tmpfs target mode) table'
  | dnsFiles {target resolvConf hosts : Bytes} {table₁ table₂ table₃ table' : Mounts}
      {resolvNode hostsNode : Node Attributes} :
      EnsureRegularMountTarget rootfs target (lit "resolv.conf") table table₁ →
      EnsureRegularMountTarget rootfs target (lit "hosts") table₁ table₂ →
      MountRaw rootfs (push target (lit "resolv.conf")) (.file resolvNode) table₂ table₃ →
      MountRaw rootfs (push target (lit "hosts")) (.file hostsNode) table₃ table' →
      ApplyMount rootfs table (.dnsFiles target resolvConf hosts) table'

/-- The loop over the operations (`linux.rs:118-120`), all of which succeed. -/
inductive ApplyMounts (rootfs : Bytes) : Mounts → List MountOperation → Mounts → Prop
  | nil (table : Mounts) : ApplyMounts rootfs table [] table
  | cons {table middle table' : Mounts} {operation : MountOperation}
      {operations : List MountOperation} : ApplyMount rootfs table operation middle →
      ApplyMounts rootfs middle operations table' →
      ApplyMounts rootfs table (operation :: operations) table'

/-! ### What the mounts leave alone -/

/-- The table is sound, and the tree below has lost nothing but links. -/
structure Over (tree : Tree) (table : Mounts) : Prop where
  sound : table.Sound
  kept : MountTable.Kept tree table.root

section Steps

variable {rootfs target : Bytes} {tree : Tree} {table table' : Mounts}

theorem over_unmounted (tree : Tree) : Over tree ⟨tree, []⟩ where
  sound := MountTable.sound_empty tree
  kept := MountTable.Kept.refl tree

theorem over_mountRaw {shown : Shown Attributes} (h : Over tree table)
    (hstep : MountRaw rootfs target shown table table') : Over tree table' := by
  cases hstep with
  | inside _ hkind hsame =>
    constructor
    · exact MountTable.sound_mount h.sound hkind hsame.mp
    · exact h.kept
  | outside _ => exact h

theorem over_setTree {number : ℕ} {before after : Tree} (h : Over tree table)
    (htree : table.treeOf number = some before) (hrewritten : MountTable.Rewritten before after) :
    Over tree (table.setTree number after) where
  sound := MountTable.sound_setTree h.sound htree hrewritten
  kept := MountTable.kept_setTree h.kept htree hrewritten

theorem over_createsFile {parent : Place} {name : Bytes} (h : Over tree table)
    (hstep : CreatesFile table parent name table') : Over tree table' := by
  cases hstep with
  | intro htree hcreate =>
    exact over_setTree h htree (MountTable.rewritten_create (by simp) hcreate)

theorem over_ensureRegular {directory name : Bytes} (h : Over tree table)
    (hstep : EnsureRegularMountTarget rootfs directory name table table') : Over tree table' := by
  cases hstep with
  | regular _ _ => exact h
  | link hlink _ htree hcreate =>
    have hremoved := MountTable.rewritten_removeLink _ _ _ hlink
    exact over_createsFile (over_setTree h htree hremoved) hcreate
  | missing _ _ hcreate => exact over_createsFile h hcreate
  | outside _ => exact h

theorem over_applyMount {operation : MountOperation} (h : Over tree table)
    (hstep : ApplyMount rootfs table operation table') : Over tree table' := by
  cases hstep with
  | proc hmount => exact over_mountRaw h hmount
  | bind hmount => exact over_mountRaw h hmount
  | tmpfs hmount => exact over_mountRaw h hmount
  | dnsFiles hresolv hhosts hfirst hsecond =>
    have hensured := over_ensureRegular (over_ensureRegular h hresolv) hhosts
    exact over_mountRaw (over_mountRaw hensured hfirst) hsecond

theorem over_applyMounts {operations : List MountOperation} (h : Over tree table)
    (hrun : ApplyMounts rootfs table operations table') : Over tree table' := by
  induction hrun with
  | nil table => exact h
  | cons hstep _ ih => exact ih (over_applyMount h hstep)

end Steps

/-! ### What was checked -/

/-- What `prepare_workdir` asks of the node it finds. -/
def IsWorkdir (node : Node Attributes) : Prop := node.kind = .directory

/-- What `prepare_executable` asks of the node it finds. -/
def IsExecutable (node : Node Attributes) : Prop :=
  isFile node.kind = true ∧ node.attributes.mode &&& 0o111 ≠ 0

section Checked

variable {host : Host} {tree : Tree} {rootfs path : Bytes}

theorem prepareWorkdir_eq_ok (h : prepareWorkdir host tree rootfs path = .ok ()) :
    ∃ position node, resolvePosition host tree rootfs path = .ok position ∧
      tree.lookup position = some node ∧ IsWorkdir node := by
  obtain ⟨position, hposition, hrest⟩ := (bind_eq_ok _ _ _).mp h
  obtain ⟨kind, hkind, hcheck⟩ := (bind_eq_ok _ _ _).mp hrest
  obtain ⟨node, hnode, rfl⟩ := Option.map_eq_some_iff.mp (stat_eq_ok hkind)
  rw [rejectIf_eq_ok, Bool.not_eq_false] at hcheck
  refine ⟨position, node, hposition, hnode, ?_⟩
  unfold IsWorkdir
  unfold isDir at hcheck
  split at hcheck
  · assumption
  · cases hcheck

theorem prepareExecutable_eq_ok (h : prepareExecutable host tree rootfs path = .ok ()) :
    ∃ position node, resolvePosition host tree rootfs path = .ok position ∧
      tree.lookup position = some node ∧ IsExecutable node := by
  obtain ⟨position, hposition, hrest⟩ := (bind_eq_ok _ _ _).mp h
  obtain ⟨kind, hkind, hchecks⟩ := (bind_eq_ok _ _ _).mp hrest
  obtain ⟨node, hnode, rfl⟩ := Option.map_eq_some_iff.mp (stat_eq_ok hkind)
  obtain ⟨_, hregular, hmode⟩ := (bind_eq_ok _ _ _).mp hchecks
  rw [rejectIf_eq_ok, Bool.not_eq_false] at hregular
  rw [rejectIf_eq_ok, hnode] at hmode
  exact ⟨position, node, hposition, hnode, hregular, hmode⟩

end Checked

/-! ### What is used -/

/-- What the preflight has seen of a path: the position it took the path to, and the node there. -/
structure Seen (host : Host) (tree : Tree) (rootfs path : Bytes) (position : Position)
    (node : Node Attributes) : Prop where
  resolved : resolvePosition host tree rootfs path = .ok position
  found : tree.lookup position = some node

/-- With these mounts, the path comes from the new root to the position in the rootfs. -/
def Comes (table : Mounts) (path : Bytes) (position : Position) : Prop :=
  table.Walk table.top (path.splitOn slash) (0, position)

/-- No mount lies on the position or on a directory above it. -/
def Open (table : Mounts) (position : Position) : Prop :=
  ∀ way, way <+: position → ¬table.Covered (0, way)

/-- What was seen of a path, over the mounts: the node is still there, the path comes to it where
its walk looks past no mount, and does not where a mount hides it. -/
structure Used (tree : Tree) (table : Mounts) (path : Bytes) (position : Position)
    (node : Node Attributes) : Prop where
  kept : table.lookup (0, position) = some node
  clear : MountTable.ClearWalk tree table [] (path.splitOn slash) position →
    tree.Walk [] (path.splitOn slash) position ∧ Comes table path position
  direct : path = absolute position → (Comes table path position ↔ Open table position)
  hidden : Comes table path position → Open table position

section Lookup

variable {host : Host} {tree : Tree} {rootfs path : Bytes} {position : Position}
  {node : Node Attributes} {table : Mounts}

theorem comes_absolute (hover : Over tree table) (hproper : Proper position)
    (hplain : tree.Plain position) (hopen : Open table position) :
    Comes table (absolute position) position := by
  have hwalk := (MountTable.walk_iff_uncovered hover.sound hover.kept hplain).mpr hopen
  have hroot : table.kindAt table.top = some .directory :=
    (MountTable.shows_top hover.sound hover.kept).directory tree.root
  unfold Comes
  cases position with
  | nil =>
    have hpieces : (absolute []).splitOn slash = [[], []] := by decide
    rw [hpieces]
    exact .stay (Or.inl rfl) hroot (.stay (Or.inl rfl) hroot hwalk)
  | cons n ns =>
    rw [absolute_cons, splitOn_flatMap _ fun m hm => (hproper m hm).2.2.2]
    exact .stay (Or.inl rfl) hroot hwalk

/-- The walk over the mounts, against what was seen before there were any. -/
theorem used_of_seen (hseen : Seen host tree rootfs path position node) (hover : Over tree table)
    (hlink : ∀ text, node.kind ≠ .symlink text) : Used tree table path position node where
  kept := hover.kept position node hseen.found hlink
  clear hclear := by
    have hstart := MountTable.shows_top hover.sound hover.kept
    exact ⟨hclear.plain, hclear.walk hover.sound hover.kept hstart⟩
  direct := by
    rintro rfl
    have hproper := resolvePosition_proper hseen.resolved
    have hplain := resolvePosition_plain hseen.resolved
    constructor
    · exact fun hcomes way hway => hcomes.not_covered hover.sound way hway
    · exact comes_absolute hover hproper hplain
  hidden hcomes way hway := hcomes.not_covered hover.sound way hway

end Lookup

theorem IsWorkdir.not_link {node : Node Attributes} (h : IsWorkdir node) (text : Bytes) :
    node.kind ≠ .symlink text := by
  unfold IsWorkdir at h
  rw [h]
  simp

theorem IsExecutable.not_link {node : Node Attributes} (h : IsExecutable node) (text : Bytes) :
    node.kind ≠ .symlink text := by
  intro heq
  have hregular := h.1
  rw [heq] at hregular
  cases hregular

/-- Where all checks and all mounts of a run succeed, the directory and the executable that were
checked are what `chdir` and `execve` come to, unless the mounts hide them. -/
theorem preflight_used (host : Host) (sha256 : Bytes → Bytes) (rootfs lower : Bytes)
    (overlayBase : Position) (config : Config) (start tree : Tree)
    (operations : List MountOperation) (table : Mounts)
    (h : prepareOperations host sha256 rootfs lower overlayBase config start =
      .ok operations tree)
    (hmounts : ApplyMounts rootfs ⟨tree, []⟩ operations table) :
    (∃ position node, Seen host tree rootfs config.workdir position node ∧ IsWorkdir node ∧
      Used tree table config.workdir position node) ∧
    ∃ executable position node, config.command[0]? = some executable ∧
      Seen host tree rootfs executable position node ∧ IsExecutable node ∧
      Used tree table executable position node := by
  obtain ⟨_, _, _, _, _, hworkdir, ⟨executable, hcommand, hexecutable⟩, _, _, _⟩ :=
    prepareOperations_eq_ok h
  have hover := over_applyMounts (over_unmounted tree) hmounts
  constructor
  · obtain ⟨position, node, hposition, hnode, hcheck⟩ := prepareWorkdir_eq_ok hworkdir
    have hseen : Seen host tree rootfs config.workdir position node := ⟨hposition, hnode⟩
    exact ⟨position, node, hseen, hcheck, used_of_seen hseen hover hcheck.not_link⟩
  · obtain ⟨position, node, hposition, hnode, hcheck⟩ := prepareExecutable_eq_ok hexecutable
    have hseen : Seen host tree rootfs executable position node := ⟨hposition, hnode⟩
    exact ⟨executable, position, node, hcommand, hseen, hcheck,
      used_of_seen hseen hover hcheck.not_link⟩

/-! ### A tmpfs beside the command, or over it -/

def toolsImage : Tree :=
  FileTree.ofEntries ⟨0, 0, 0o755⟩ [imageEntry [] "tools" .directory,
    imageEntry [lit "tools"] "run" (.regular []), imageEntry [] "cache" .directory]

def toolsArguments (tmpfs : Bytes) : List Bytes :=
  [lit "--rootfs", lit "/image", lit "--workdir", lit "/tools", lit "--tmpfs", tmpfs, lit "--",
    lit "/tools/run"]

def toolsConfig (tmpfs : Bytes) : Config where
  rootfs := lit "/image"
  overlayDevice := none
  overlayId := none
  workdir := lit "/tools"
  user := none
  standardMounts := false
  diskMounts := []
  binds := []
  tmpfs := [tmpfs]
  command := [lit "/tools/run"]

def prepareTools (tmpfs : Bytes) :
    EStateM.Result (Failure RuntimeError) Tree (List MountOperation) :=
  prepareOperations plainHost id (absolute [lit "merged"]) (lit "/image") [lit "overlay"]
    (toolsConfig tmpfs) toolsImage

/-- What the preflight makes of the image, with a tmpfs on this directory. -/
def ToolsSeen (name : Bytes) (tree : Tree) (operations : List MountOperation) : Prop :=
  operations = [.tmpfs (push (absolute [lit "merged"]) name) 0o755] ∧
  tree.kindAt [name] = some .directory ∧
  resolvePosition plainHost tree (absolute [lit "merged"]) (lit "/tools") = .ok [lit "tools"] ∧
  resolvePosition plainHost tree (absolute [lit "merged"]) (lit "/tools/run") =
    .ok [lit "tools", lit "run"]

instance (name : Bytes) (tree : Tree) (operations : List MountOperation) :
    Decidable (ToolsSeen name tree operations) := inferInstanceAs (Decidable (_ ∧ _))

def tmpfsTable (tree : Tree) (name : Bytes) : Mounts :=
  MountTable.mount ⟨tree, []⟩ (0, [name]) (.directory (FileTree.empty ⟨0, 0, 0o755⟩))

theorem covered_tmpfs {tree : Tree} {name : Bytes} {way : Position} :
    (tmpfsTable tree name).Covered (0, way) ↔ way = [name] := by
  constructor
  · rintro ⟨mount, hm, hway⟩
    rw [List.mem_singleton.mp hm] at hway
    exact (Prod.mk.inj hway).2.symm
  · rintro rfl
    exact ⟨_, List.mem_singleton_self _, rfl⟩

theorem applyMounts_tmpfs {tree : Tree} {name : Bytes} (hname : ProperName name)
    (h : tree.kindAt [name] = some .directory) :
    ApplyMounts (absolute [lit "merged"]) ⟨tree, []⟩
      [.tmpfs (push (absolute [lit "merged"]) name) 0o755] (tmpfsTable tree name) := by
  have hinner : stripPrefix (push (absolute [lit "merged"]) name) (absolute [lit "merged"]) =
      some ([name].map .normal) :=
    stripPrefix_foldl_push [name] _ (by decide) (by simpa using hname)
  have hwalk : MountTable.Walk (⟨tree, []⟩ : Mounts) (0, []) [name] (0, [name]) :=
    .enter h (by simp) (.done _)
  have hmount : MountRaw (absolute [lit "merged"]) (push (absolute [lit "merged"]) name)
      (.directory (FileTree.empty ⟨0, 0, 0o755⟩)) ⟨tree, []⟩ (tmpfsTable tree name) :=
    .inside (.names hinner hwalk) h (by decide)
  exact .cons (.tmpfs hmount) (.nil _)

/-- With a tmpfs on `/tools`, neither the workdir nor the command that were checked is used. -/
theorem preflight_hidden : parseArgs (toolsArguments (lit "/tools")) =
      .ok (toolsConfig (lit "/tools")) ∧
    ∃ operations tree table, prepareTools (lit "/tools") = .ok operations tree ∧
      ApplyMounts (absolute [lit "merged"]) ⟨tree, []⟩ operations table ∧
      (resolvePosition plainHost tree (absolute [lit "merged"]) (lit "/tools") =
        .ok [lit "tools"] ∧ ¬Comes table (lit "/tools") [lit "tools"]) ∧
      resolvePosition plainHost tree (absolute [lit "merged"]) (lit "/tools/run") =
        .ok [lit "tools", lit "run"] ∧
      ¬Comes table (lit "/tools/run") [lit "tools", lit "run"] := by
  have hprepared : Prepared (ToolsSeen (lit "tools")) (prepareTools (lit "/tools")) := by
    decide +kernel
  obtain ⟨operations, tree, hresult, rfl, htools, hworkdir, hcommand⟩ :=
    exists_of_prepared hprepared
  have hmounts := applyMounts_tmpfs (by decide) htools
  have hover := over_applyMounts (over_unmounted tree) hmounts
  have hcovered : (tmpfsTable tree (lit "tools")).Covered (0, [lit "tools"]) := covered_tmpfs.mpr rfl
  refine ⟨by decide +kernel, _, tree, _, hresult, hmounts, ⟨hworkdir, ?_⟩, hcommand, ?_⟩
  · intro hcomes
    exact hcomes.not_covered hover.sound [lit "tools"] (by decide) hcovered
  · intro hcomes
    exact hcomes.not_covered hover.sound [lit "tools"] (by decide) hcovered

theorem preflight_used_cache : ∃ operations tree table,
    prepareTools (lit "/cache") = .ok operations tree ∧
    ApplyMounts (absolute [lit "merged"]) ⟨tree, []⟩ operations table ∧
    Comes table (lit "/tools") [lit "tools"] ∧
    Comes table (lit "/tools/run") [lit "tools", lit "run"] := by
  have hprepared : Prepared (ToolsSeen (lit "cache")) (prepareTools (lit "/cache")) := by
    decide +kernel
  obtain ⟨operations, tree, hresult, rfl, hcache, hworkdir, hcommand⟩ :=
    exists_of_prepared hprepared
  have hmounts := applyMounts_tmpfs (by decide) hcache
  obtain ⟨⟨position, node, hseen, _, hused⟩, executable, place, file, hfirst, hfound, _, hrun⟩ :=
    preflight_used plainHost id (absolute [lit "merged"]) (lit "/image") [lit "overlay"]
      (toolsConfig (lit "/cache")) toolsImage tree _ _ hresult hmounts
  obtain rfl := Option.some.inj hfirst
  obtain rfl := Except.ok.inj (hseen.resolved.symm.trans hworkdir)
  obtain rfl := Except.ok.inj (hfound.resolved.symm.trans hcommand)
  have hopen : Open (tmpfsTable tree (lit "cache")) [lit "tools", lit "run"] := by
    intro way hway hcovered
    rw [covered_tmpfs.mp hcovered] at hway
    exact absurd hway (by decide)
  have hstart : Open (tmpfsTable tree (lit "cache")) [lit "tools"] := fun way hway =>
    hopen way (hway.trans (List.prefix_append [lit "tools"] [lit "run"]))
  have hrunPath : lit "/tools/run" = absolute [lit "tools", lit "run"] := by decide
  have hworkdirPath : lit "/tools" = absolute [lit "tools"] := by decide
  exact ⟨_, tree, _, hresult, hmounts, (hused.direct hworkdirPath).mpr hstart,
    (hrun.direct hrunPath).mpr hopen⟩

end Sandcamp.Sandrun
