import Sandcamp.Sandrun.ByPath

/-!
# What making bind targets leaves behind (linux.rs:869-1038, 1101-1156)

However `ensure_bind_target` ends, whatever was there is there as it was, and whatever is
new lies below the rootfs. When it succeeds, the new entries are the directories on the way
to the target and the target itself, and a second call changes nothing.
-/

namespace Sandcamp.Sandrun.ByPath
open Foundations Foundations.UnixPath Foundations.FileTree

/-- A host whose files are one tree, and whose calls fail where `fault` says so. -/
def staticHost (fault : Bytes → Bytes → Bool) (umask : ℕ) : Host where
  fault := fault
  canonicalize world path := (world.find true path).toOption.map absolute
  metadata world path := (world.status true path).toOption
  occupied _ := false
  umask := umask

/-- What is left behind, however a call ends. -/
structure OnlyAdds (base : Position) (world world' : Tree) : Prop where
  kept : world.Extends world'
  below : ∀ position, world.lookup position = none → (world'.lookup position).isSome →
    ∃ inner, inner ≠ [] ∧ position = base ++ inner

/-- What a call leaves behind that succeeds, for a source of this kind and a target of this
name in this directory below the rootfs. -/
structure Ensured (host : Host) (rootfs : Bytes) (base : Position) (bind : Bind)
    (source : FileKind) (directory : Position) (name : Bytes) (world world' : Tree) : Prop where
  read : ∃ canonical, bindSource host world bind.source = .ok (canonical, source)
  named : fileName bind.target = some name
  lies : world'.kindAt (base ++ directory) = some .directory
  above : host.Readable →
    resolveTarget host world' rootfs (logical (names bind.target).dropLast) =
      .ok (physical rootfs directory)
  created : ∀ position node, world.lookup position = none → world'.lookup position = some node →
    position = base ++ (directory ++ [name]) ∨
      (position <+: base ++ directory ∧ node = createdNode .directory createdDirectoryMode)
  made : world.lookup (base ++ (directory ++ [name])) = none →
    ∃ node, createdLeaf source = some node ∧
      world'.lookup (base ++ (directory ++ [name])) = some node
  resolves : host.Readable → world.lookup (base ++ (directory ++ [name])) = none →
    resolveTarget host world' rootfs bind.target = .ok (physical rootfs (directory ++ [name]))
  again : ensureBindTarget host rootfs bind world' = .ok () world'

section Contained

variable {fault : Bytes → Bytes → Bool} {umask : ℕ} {world world' tree tree' : Tree}
  {base : Position} {hbase : world.kindAt base = some .directory}

/-- A source that is there is there in every larger tree. -/
theorem bindSource_stays {source : Bytes} {found : Bytes × FileKind}
    (hextends : world.Extends world')
    (h : bindSource (staticHost fault umask) world source = .ok found) :
    bindSource (staticHost fault umask) world' source = .ok found := by
  have hfind : ∀ {path : Bytes} {there : List Bytes}, world.find true path = .ok there →
      world'.find true path = .ok there := fun hfound => reach_extends hextends maxLinks _ hfound
  obtain ⟨canonical, hcanonical, hrest⟩ := (bind_eq_ok _ _ _).mp h
  obtain ⟨kind, hkind, hend⟩ := (bind_eq_ok _ _ _).mp hrest
  rw [okOr_eq_ok] at hcanonical hkind
  have hcanonical' : (staticHost fault umask).canonicalize world' source = some canonical := by
    obtain ⟨there, hthere, hname⟩ := Option.map_eq_some_iff.mp hcanonical
    show (world'.find true source).toOption.map absolute = _
    cases hfound : world.find true source with
    | error e =>
      rw [hfound] at hthere
      cases hthere
    | ok position =>
      rw [hfound] at hthere
      obtain rfl := Option.some.inj hthere
      rw [hfind hfound, ← hname]
      rfl
  have hkind' : (staticHost fault umask).metadata world' canonical = some kind := by
    have hstatus : (world.status true canonical).toOption = some kind := hkind
    show (world'.status true canonical).toOption = _
    cases hfound : world.status true canonical with
    | error e =>
      rw [hfound] at hstatus
      cases hstatus
    | ok found =>
      rw [hfound] at hstatus
      obtain ⟨there, hthere, hread⟩ := (bind_eq_ok _ _ _).mp hfound
      rw [okOr_eq_ok] at hread
      rw [status, hfind hthere, ← hstatus]
      show (okOr (world'.kindAt there) _).toOption = _
      rw [hextends.kindAt hread]
      rfl
  rw [bindSource, hcanonical']
  show (okOr ((staticHost fault umask).metadata world' canonical) _ >>= _) = _
  rw [hkind']
  exact hend

theorem inside_readable {host : Host} (h : host.Readable) :
    (inside host world base hbase).Readable := h

/-- What is added to the tree of the rootfs is added below the rootfs. -/
theorem onlyAdds_graft (h : tree.Extends tree') :
    OnlyAdds base (world.graft base hbase tree) (world.graft base hbase tree') where
  kept := graft_extends hbase h
  below position hnone hsome := by
    by_cases hposition : base <+: position
    · obtain ⟨inner, rfl⟩ := hposition
      refine ⟨inner, ?_, rfl⟩
      rintro rfl
      rw [lookup_graft] at hnone
      have hroot := tree.root
      rw [hnone] at hroot
      cases hroot
    · rw [lookup_graft_outside hbase hposition] at hnone hsome
      rw [hnone] at hsome
      cases hsome

theorem state_grafted {ε α β : Type} (f : β → α) (result : EStateM.Result ε Tree β) :
    after (grafted hbase f result) = world.graft base hbase (after result) := by
  cases result with
  | ok b tree => rfl
  | error e tree => rfl

theorem rooted_graft {rootfs : Bytes} (hrooted : world.Rooted rootfs base)
    (hextends : (world.below base hrooted.directory).Extends tree) :
    (world.graft base hrooted.directory tree).Rooted rootfs base := by
  have hgrown := graft_extends hrooted.directory hextends
  rw [graft_below] at hgrown
  exact hrooted.extends hgrown

/-- What the call has done in the tree of the rootfs, seen from the host. -/
theorem ensured_graft {rootfs : Bytes} {bind : Bind} {source : FileKind} {above : List Component}
    {directory : Position} {name : Bytes} {middle : Tree} (hrooted : world.Rooted rootfs base)
    (hclean : cleanAbsolute bind.target = true)
    (h : Ensuring (inside (staticHost fault umask) world base hrooted.directory) rootfs bind
      (world.below base hrooted.directory) source above directory name middle tree') :
    Ensured (staticHost fault umask) rootfs base bind source directory name world
      (world.graft base hrooted.directory tree') := by
  have hentered := h.entered
  have hgrown : (world.below base hrooted.directory).Extends tree' := hentered.grown.trans h.grown
  have hrooted' := rooted_graft hrooted hgrown
  obtain ⟨canonical, hinner⟩ := h.read
  have hsource : bindSource (staticHost fault umask) world bind.source = .ok (canonical, source) := by
    rw [← graft_below hrooted.directory]
    exact hinner
  constructor
  · exact ⟨canonical, hsource⟩
  · exact h.name_eq
  · rw [kindAt_graft]
    exact h.grown.kindAt hentered.directory
  · intro hread
    have hlocated := resolvePosition_stays h.grown (h.located (inside_readable hread) hclean)
    rw [resolveTarget_inside hrooted', hlocated]
    rfl
  · intro position node hnone hfound
    by_cases hposition : base <+: position
    · obtain ⟨inner, rfl⟩ := hposition
      rw [lookup_graft] at hfound
      rcases h.created hnone hfound with rfl | ⟨hbefore, hnode⟩
      · exact Or.inl rfl
      · exact Or.inr ⟨(List.prefix_append_right_inj base).mpr hbefore, hnode⟩
    · rw [lookup_graft_outside hrooted.directory hposition, hnone] at hfound
      cases hfound
  · intro hmissing
    obtain ⟨node, hleaf, hadded⟩ := h.made hmissing
    refine ⟨node, hleaf, ?_⟩
    rw [lookup_graft]
    exact hadded.self
  · intro hread hmissing
    rw [resolveTarget_inside hrooted', h.leads (inside_readable hread) hclean hmissing]
    rfl
  · have hextends := graft_extends hrooted.directory hgrown
    rw [graft_below] at hextends
    have hagain : bindSource (staticHost fault umask) (world.graft base hrooted.directory tree')
        bind.source = .ok (canonical, source) := bindSource_stays hextends hsource
    rw [ensureBindTarget_inside hrooted', h.again ⟨canonical, hagain⟩]
    rfl

/-- A call only adds, and only below the rootfs, whether it succeeds or fails; when it
succeeds, it has made what was missing on the way to the target and would do nothing more. -/
theorem ensureBindTarget_contained (fault : Bytes → Bytes → Bool) (umask : ℕ) (world : Tree)
    (rootfs : Bytes) (base : Position) (bind : Bind) (hrooted : world.Rooted rootfs base)
    (hclean : cleanAbsolute bind.target = true) :
    OnlyAdds base world
      (after (ensureBindTarget (staticHost fault umask) rootfs bind world)) ∧
    ∀ world', ensureBindTarget (staticHost fault umask) rootfs bind world = .ok () world' →
      ∃ source directory name,
        Ensured (staticHost fault umask) rootfs base bind source directory name world world' := by
  have hrun : ensureBindTarget (staticHost fault umask) rootfs bind
      (world.graft base hrooted.directory (world.below base hrooted.directory)) = _ :=
    ensureBindTarget_inside (rooted_graft hrooted (Extends.refl _)) bind
  rw [graft_below] at hrun
  constructor
  · have hgrows := grows_ensureBindTarget (inside (staticHost fault umask) world base
      hrooted.directory) rootfs bind (world.below base hrooted.directory)
    have hadds : OnlyAdds base (world.graft base hrooted.directory _) _ := onlyAdds_graft hgrows
    rw [graft_below] at hadds
    rw [hrun, state_grafted]
    exact hadds
  · intro world' hok
    rw [hok] at hrun
    cases hend : Sandrun.ensureBindTarget (inside (staticHost fault umask) world base
        hrooted.directory) rootfs bind (world.below base hrooted.directory) with
    | error e tree' =>
      rw [hend] at hrun
      cases hrun
    | ok u tree' =>
      rw [hend] at hrun
      cases hrun
      obtain ⟨source, above, directory, name, middle, h⟩ := ensureBindTarget_eq_ok hend
      exact ⟨source, directory, name, ensured_graft hrooted hclean h⟩

end Contained

/-- A host with an image at `/image`, in which `/srv` is a link to `/opt/srv`. -/
def hostTree : Tree :=
  FileTree.ofEntries ⟨0, 0, 0o755⟩ [imageEntry [] "data" .directory, imageEntry [] "image" .directory,
    imageEntry [lit "image"] "opt" .directory,
    imageEntry [lit "image", lit "opt"] "srv" .directory,
    imageEntry [lit "image"] "srv" (.symlink (lit "/opt/srv"))]

theorem ensureBindTarget_contained_srv :
    ∃ world' source directory name,
      ensureBindTarget (staticHost (fun _ _ => false) 0o22) (lit "/image")
        ⟨lit "/data", lit "/srv/app/data", false⟩ hostTree = .ok () world' ∧
      Ensured (staticHost (fun _ _ => false) 0o22) (lit "/image") [lit "image"]
        ⟨lit "/data", lit "/srv/app/data", false⟩ source directory name hostTree world' := by
  have hrooted : hostTree.Rooted (lit "/image") [lit "image"] :=
    ⟨by decide, by decide +kernel, by decide +kernel⟩
  obtain ⟨-, hok⟩ := ensureBindTarget_contained (fun _ _ => false) 0o22 hostTree (lit "/image")
    [lit "image"] ⟨lit "/data", lit "/srv/app/data", false⟩ hrooted (by decide)
  have hsucceeds : succeeds (ensureBindTarget (staticHost (fun _ _ => false) 0o22) (lit "/image")
      ⟨lit "/data", lit "/srv/app/data", false⟩ hostTree) = true := by decide +kernel
  obtain ⟨u, world', hrun⟩ := exists_of_succeeds hsucceeds
  obtain ⟨source, directory, name, hensured⟩ := hok world' hrun
  exact ⟨world', source, directory, name, hrun, hensured⟩

end Sandcamp.Sandrun.ByPath
