import Sandcamp.Foundations.Interruption
import Sandcamp.Sandrun.Exclusive

/-!
# Runs that may fail or be killed anywhere

An attempt is one run on its own: it ends where its choices run out, unless it has
failed before, and the kernel takes back what it held. Attempts follow one another on
the disk that the last one left.
-/

namespace Sandcamp.Sandrun
open Foundations

variable {ι : Type} [DecidableEq ι]

structure Attempt (ι : Type) where
  who : ι
  run : OverlayRun
  choices : List Choice

/-- The attempt where it ends: what is left of the run, and the disk. -/
def Attempt.outcome (sha256 : Bytes → Bytes) (base : Position) (attributes : Bytes → Attributes)
    (attempt : Attempt ι) (s : Storage ι) : Routine Unit × Storage ι :=
  (machine attributes).solo attempt.who attempt.choices (runOverlay sha256 base attempt.run) s

/-- The disk that the attempt leaves. -/
def Attempt.leave (sha256 : Bytes → Bytes) (base : Position) (attributes : Bytes → Attributes)
    (attempt : Attempt ι) (s : Storage ι) : Storage ι :=
  (attempt.outcome sha256 base attributes s).2.finish attempt.who

/-- One attempt after the other. -/
def afterAttempts (sha256 : Bytes → Bytes) (base : Position) (attributes : Bytes → Attributes)
    (attempts : List (Attempt ι)) (s : Storage ι) : Storage ι :=
  attempts.foldl (fun s attempt => attempt.leave sha256 base attributes s) s

/-- No run is live. -/
def Idle (s : Storage ι) : Prop := ∀ who, s.progress who = Progress.none

/-- Both runs carry the same overlay id and rootfs. -/
def OverlayRun.SameIdentity (run run' : OverlayRun) : Prop :=
  run.overlayId = run'.overlayId ∧ run.lower = run'.lower

theorem OverlayRun.SameIdentity.identity {run run' : OverlayRun} (h : run.SameIdentity run') :
    run.identity = run'.identity := by
  unfold OverlayRun.identity
  rw [h.1, h.2]

theorem OverlayRun.SameIdentity.workspace {run run' : OverlayRun} (h : run.SameIdentity run')
    (sha256 : Bytes → Bytes) (base : Position) :
    run.workspace sha256 base = run'.workspace sha256 base := by
  unfold OverlayRun.workspace
  rw [h.1, h.2]

theorem survives_require {attributes : Bytes → Attributes} {who : ι} {P : Storage ι → Prop}
    {C : Break Operation RuntimeError → Storage ι → Prop} (condition : Bool)
    (error : RuntimeError) (h : ∀ s, condition = false → P s → C (.failed error) s) :
    Machine.Survives (machine attributes) who P (require condition error)
      (fun _ s => condition = true ∧ P s) C := by
  cases condition with
  | true => exact Machine.survives_pure _ fun _ hP => ⟨rfl, hP⟩
  | false => exact Machine.survives_fail _ fun s hP => h s rfl hP

theorem survives_require_last {attributes : Bytes → Attributes} {who : ι}
    {P : Storage ι → Prop} {Q : Unit → Storage ι → Prop}
    {C : Break Operation RuntimeError → Storage ι → Prop} (condition : Bool)
    (error : RuntimeError) (h : ∀ s, condition = false → P s → C (.failed error) s)
    (hQ : ∀ s, condition = true → P s → Q () s) :
    Machine.Survives (machine attributes) who P (require condition error) Q C :=
  Machine.survives_post _ (survives_require condition error h) (fun _ s hP => hQ s hP.1 hP.2)
    fun _ _ hC => hC

theorem completes_require {attributes : Bytes → Attributes} {who : ι} {fine : Choice → Prop}
    {Q : Unit → Storage ι → Prop} (condition : Bool) (error : RuntimeError) (s : Storage ι)
    (hcondition : condition = true) (h : Q () s) :
    Machine.Completes (machine attributes) who fine (require condition error) s Q := by
  rw [require, if_pos hcondition]
  exact h

theorem progress_of_ne {attributes : Bytes → Attributes} {who other : ι} (hne : other ≠ who)
    (o : Operation) (choice : Choice) (s : Storage ι) :
    (perform attributes who o choice s).2.progress other = s.progress other := by
  have heffect := effect_perform attributes who o choice s
  generalize (perform attributes who o choice s).2 = s' at heffect ⊢
  cases heffect with
  | mountOverlay lower layers => exact Function.update_of_ne hne _ _
  | note note => exact Function.update_of_ne hne _ _
  | exec =>
    have hadvanced : ((s.closeOnExec who).advance who fun progress =>
        { progress with executed := true }).progress other = (s.closeOnExec who).progress other :=
      Function.update_of_ne hne _ _
    rw [hadvanced, Storage.progress_closeOnExec]
  | nothing | mkdirAll | mkdir | chown | chmod | openLock | flock | inheritLock => rfl
  | createNew | write => rfl

theorem idle_leave (sha256 : Bytes → Bytes) (base : Position) (attributes : Bytes → Attributes)
    (attempt : Attempt ι) {s : Storage ι} (h : Idle s) :
    Idle (attempt.leave sha256 base attributes s) := by
  have hothers : Machine.Survives (machine attributes) attempt.who
      (fun t : Storage ι => ∀ other, other ≠ attempt.who → t.progress other = Progress.none)
      (runOverlay sha256 base attempt.run)
      (fun _ t => ∀ other, other ≠ attempt.who → t.progress other = Progress.none)
      (fun _ t => ∀ other, other ≠ attempt.who → t.progress other = Progress.none) :=
    Machine.survives_post _ (Machine.survives_within _ (Thread.within_true _)
      fun o _ choice t ht other hne => (progress_of_ne hne o choice t).trans (ht other hne))
      (fun _ _ h => h) fun _ _ h => h.2
  have hleft := hothers.state (fun other _ => h other) attempt.choices
  intro who
  by_cases hwho : who = attempt.who
  · rw [hwho]
    exact Function.update_self _ _ _
  · exact (Function.update_of_ne hwho _ _).trans (hleft who hwho)

/-! ### How the routines break -/

section Within

variable {p : Break Operation RuntimeError → Prop}

theorem within_require (condition : Bool) (error : RuntimeError) (h : p (.failed error)) :
    (require condition error).Within p := by
  unfold require
  split
  · trivial
  · exact h

theorem within_ensurePrivateDirectory (path : Position) (operation : String)
    (hmake : p (.cutOff (.mkdirAll path))) (hstat : p (.cutOff (.symlinkMetadata path)))
    (herror : p (.failed (failedOperation operation path))) :
    (ensurePrivateDirectory path operation).Within p := by
  apply Thread.within_bind _ _ (Thread.within_perform _ hmake)
  intro made
  apply Thread.within_bind _ _ (within_require _ _ herror)
  intro _
  apply Thread.within_bind _ _ (Thread.within_perform _ hstat)
  intro metadata
  exact within_require _ _ herror

theorem within_acquireOverlayLock (path : Position) (hopen : p (.cutOff (.openLock path)))
    (hlock : p (.cutOff (.flock path))) (hinherit : p (.cutOff .inheritLock))
    (herror : ∀ operation ∈ ["overlay_lock_open_failed", "overlay_workspace_busy",
      "overlay_lock_inherit_failed"], p (.failed (failedOperation operation path))) :
    (acquireOverlayLock path).Within p := by
  apply Thread.within_bind _ _ (Thread.within_perform _ hopen)
  intro opened
  apply Thread.within_bind _ _ (within_require _ _ (herror _ (by simp)))
  intro _
  apply Thread.within_bind _ _ (Thread.within_perform _ hlock)
  intro locked
  apply Thread.within_bind _ _ (within_require _ _ (herror _ (by simp)))
  intro _
  apply Thread.within_bind _ _ (Thread.within_perform _ hinherit)
  intro inherited
  exact within_require _ _ (herror _ (by simp))

theorem within_tryWorkspaces (base : Position) (pid nonce : ℕ) (attempts : List ℕ)
    (hmkdir : ∀ name, p (.cutOff (.mkdir (base ++ [name]))))
    (herror : ∀ path, p (.failed (failedOperation "overlay_workspace_create_failed" path))) :
    (tryWorkspaces base pid nonce attempts).Within p := by
  induction attempts with
  | nil => exact herror base
  | cons attempt rest ih =>
    apply Thread.within_bind _ _ (Thread.within_perform _ (hmkdir _))
    intro creation
    cases creation with
    | created => trivial
    | alreadyExists => exact ih
    | failed => exact herror _

theorem within_createOverlayWorkspace (base : Position) (hinstant : p (.cutOff .instant))
    (hmkdir : ∀ name, p (.cutOff (.mkdir (base ++ [name]))))
    (herror : ∀ path, p (.failed (failedOperation "overlay_workspace_create_failed" path))) :
    (createOverlayWorkspace base).Within p := by
  apply Thread.within_bind _ _ (Thread.within_perform _ hinstant)
  intro now
  exact within_tryWorkspaces base _ _ _ hmkdir herror

theorem within_prepareDiskSources (sha256 : Bytes → Bytes) (base : Position)
    (overlayId lower : Bytes) (targets : List Bytes)
    (hmake : ∀ name, p (.cutOff (.mkdirAll (diskMountBase base ++ [name]))))
    (hstat : ∀ name, p (.cutOff (.symlinkMetadata (diskMountBase base ++ [name]))))
    (hnote : ∀ source, p (.cutOff (.note (.source source))))
    (herror : ∀ path, p (.failed (failedOperation "disk_mount_source_create_failed" path))) :
    (prepareDiskSources sha256 base overlayId lower targets).Within p := by
  induction targets with
  | nil => trivial
  | cons target rest ih =>
    apply Thread.within_bind _ _
      (within_ensurePrivateDirectory _ _ (hmake _) (hstat _) (herror _))
    intro _
    apply Thread.within_bind _ _ (Thread.within_perform _ (hnote _))
    intro _
    exact ih

theorem within_prepareDiskBase (sha256 : Bytes → Bytes) (base : Position)
    (overlayId lower : Bytes) (targets : List Bytes)
    (hmake : ∀ names : List Bytes, names.length ≤ 1 →
      p (.cutOff (.mkdirAll (diskMountBase base ++ names))))
    (hstat : ∀ names, p (.cutOff (.symlinkMetadata (diskMountBase base ++ names))))
    (hnote : ∀ source, p (.cutOff (.note (.source source))))
    (herror : ∀ operation ∈ ["disk_mount_base_create_failed", "disk_mount_source_create_failed"],
      ∀ path, p (.failed (failedOperation operation path))) :
    (prepareDiskBase sha256 base overlayId lower targets).Within p := by
  have hbase := hmake [] (by simp)
  have hbaseStat := hstat []
  rw [List.append_nil] at hbase hbaseStat
  unfold prepareDiskBase
  split
  · trivial
  · apply Thread.within_bind _ _
      (within_ensurePrivateDirectory _ _ hbase hbaseStat (herror _ (by simp) _))
    intro _
    exact within_prepareDiskSources sha256 base overlayId lower targets
      (fun name => hmake [name] (by simp)) (fun name => hstat [name]) hnote (herror _ (by simp))

end Within

/-- What `stable_overlay_paths` does once the identity is there (`linux.rs:386-396`). -/
def layOut (workspace : Position) : Routine Layers := do
  call (.note .identified)
  ensurePrivateDirectory (workspace ++ [lit "work"]) "overlay_directory_create_failed"
  ensurePrivateDirectory (workspace ++ [lit "merged"]) "overlay_directory_create_failed"
  let merged ← createOverlayWorkspace (workspace ++ [lit "merged"])
  pure ⟨workspace ++ [lit "upper"], workspace ++ [lit "work"], merged⟩

theorem stableOverlayPaths_eq (sha256 : Bytes → Bytes) (base : Position) (run : OverlayRun) :
    stableOverlayPaths sha256 base run.lower run.overlayId = (do
      ensurePrivateDirectory (run.workspace sha256 base) "overlay_workspace_create_failed"
      acquireOverlayLock (lockOf (run.workspace sha256 base))
      call (.note (.acquired (run.workspace sha256 base)))
      ensureIdentity (identityOf (run.workspace sha256 base)) run.identity
      layOut (run.workspace sha256 base)) := rfl

/-- What `mount_overlay_rootfs` does with the paths (`linux.rs:360-373`). -/
def mountLayers (lower : Bytes) (layers : Layers) : Routine Layers := do
  ensureOverlayUpperDirectory layers.upper lower
  let mounted ← call (.mountOverlay lower layers)
  require mounted (failedOperation "overlay_mount_failed" layers.merged)
  pure layers

theorem mountOverlayRootfs_eq (sha256 : Bytes → Bytes) (base : Position) (run : OverlayRun) :
    mountOverlayRootfs sha256 base run.lower (some run.overlayId) = (do
      require (!(UnixPath.startsWith (UnixPath.absolute base) run.lower ||
        UnixPath.startsWith run.lower (UnixPath.absolute base))) (.invalidRootfs run.lower)
      ensurePrivateDirectory base "overlay_base_create_failed"
      let layers ← stableOverlayPaths sha256 base run.lower run.overlayId
      mountLayers run.lower layers) := rfl

/-- What remains of a run after the mount of its overlay (`linux.rs:95-136`). -/
def finishOverlay (sha256 : Bytes → Bytes) (base : Position) (run : OverlayRun) : Routine Unit := do
  prepareDiskBase sha256 base run.overlayId run.lower run.diskMounts
  let isolated ← call .isolate
  require isolated (.operation (lit "isolation") none)
  let executed ← call .exec
  require executed (.operation (lit "exec_failed") none)

theorem runOverlay_eq (sha256 : Bytes → Bytes) (base : Position) (run : OverlayRun) :
    runOverlay sha256 base run =
      mountOverlayRootfs sha256 base run.lower (some run.overlayId) >>= fun _ =>
        finishOverlay sha256 base run := rfl

theorem within_layOut {p : Break Operation RuntimeError → Prop} (workspace : Position)
    (hnote : p (.cutOff (.note .identified)))
    (hmake : ∀ name ∈ [lit "work", lit "merged"], p (.cutOff (.mkdirAll (workspace ++ [name]))))
    (hstat : ∀ name ∈ [lit "work", lit "merged"],
      p (.cutOff (.symlinkMetadata (workspace ++ [name]))))
    (hinstant : p (.cutOff .instant))
    (hmkdir : ∀ name, p (.cutOff (.mkdir (workspace ++ [lit "merged"] ++ [name]))))
    (hdirectory : ∀ path, p (.failed (failedOperation "overlay_directory_create_failed" path)))
    (hworkspace : ∀ path, p (.failed (failedOperation "overlay_workspace_create_failed" path))) :
    (layOut workspace).Within p := by
  apply Thread.within_bind _ _ (Thread.within_perform _ hnote)
  intro _
  apply Thread.within_bind _ _ (within_ensurePrivateDirectory _ _ (hmake _ List.mem_cons_self)
    (hstat _ List.mem_cons_self) (hdirectory _))
  intro _
  apply Thread.within_bind _ _ (within_ensurePrivateDirectory _ _
    (hmake _ (List.mem_cons_of_mem _ List.mem_cons_self))
    (hstat _ (List.mem_cons_of_mem _ List.mem_cons_self)) (hdirectory _))
  intro _
  apply Thread.within_bind _ _ (within_createOverlayWorkspace _ hinstant hmkdir hworkspace)
  intro merged
  trivial

theorem within_finishOverlay {p : Break Operation RuntimeError → Prop} (sha256 : Bytes → Bytes)
    (base : Position) (run : OverlayRun)
    (hmake : ∀ names : List Bytes, names.length ≤ 1 →
      p (.cutOff (.mkdirAll (diskMountBase base ++ names))))
    (hstat : ∀ names, p (.cutOff (.symlinkMetadata (diskMountBase base ++ names))))
    (hnote : ∀ source, p (.cutOff (.note (.source source)))) (hisolate : p (.cutOff .isolate))
    (hexec : p (.cutOff .exec))
    (herror : ∀ operation ∈ ["disk_mount_base_create_failed", "disk_mount_source_create_failed"],
      ∀ path, p (.failed (failedOperation operation path)))
    (hend : ∀ operation ∈ ["isolation", "exec_failed"],
      p (.failed (.operation (lit operation) none))) :
    (finishOverlay sha256 base run).Within p := by
  apply Thread.within_bind _ _
    (within_prepareDiskBase sha256 base _ _ _ hmake hstat hnote herror)
  intro _
  apply Thread.within_bind _ _ (Thread.within_perform _ hisolate)
  intro isolated
  apply Thread.within_bind _ _ (within_require _ _ (hend _ (by simp)))
  intro _
  apply Thread.within_bind _ _ (Thread.within_perform _ hexec)
  intro executed
  exact within_require _ _ (hend _ (by simp))

end Sandcamp.Sandrun
