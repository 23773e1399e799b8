import BlockFS.Proofs.Data.Reading
import BlockFS.Proofs.Invariant.Calls
import BlockFS.Proofs.Invariant.Formatted
import BlockFS.Proofs.Volume.Listing

/-!
What callers get to see. On a sound file system whose device does not fail the outcome of a call is
a function of the disk and of what is held in memory; that of a read, in particular, depends on
where the path leads and on the bytes of the file there. What a call leaves is a function of both
too: the changes it decided on are made, all of them, or none if it was refused.
-/

set_option autoImplicit false
set_option relaxedAutoImplicit false

namespace BlockFS

def Disk.filled (d : Disk) (text : String) (offset : Nat) (buffer : List UInt8) : Filled :=
  match d.resolve text 0 with
  | .error reason => ⟨.error (.refused reason), buffer⟩
  | .ok id =>
    if (d.inode id).isRegular then
      ⟨.ok (min buffer.length ((d.inode id).length - offset)),
        ((d.contents (d.inode id)).drop offset).take
            (min buffer.length ((d.inode id).length - offset)) ++
          buffer.drop (min buffer.length ((d.inode id).length - offset))⟩
    else ⟨.error (.refused .isADirectory), buffer⟩

namespace FileSystem

variable {α : Type} {fs : FileSystem} {diskSize now : UInt32} {request : Request}

/-- What a caller gets to see of a call. -/
def outcome (fs : FileSystem) (now : UInt32) (request : Request) : Except Failure Response :=
  match perform now request fs with
  | .ok response _ => .ok response
  | .error failure _ => .error failure

theorem outcome_eq_ok_iff {response : Response} : fs.outcome now request = .ok response ↔
    ∃ fs', perform now request fs = .ok response fs' := by
  rw [outcome]
  cases perform now request fs <;> simp

theorem outcome_asks {question : Volume → Query α} {f : α → Response}
    (hfaults : fs.device.faults = Faults.none) (h : Asks now request question f) :
    fs.outcome now request = ((question fs.volume).answer fs.device.disk).map f := by
  cases hanswer : (question fs.volume).answer fs.device.disk with
  | ok a =>
    obtain ⟨fs', hperform, -⟩ := perform_of_answer hfaults h hanswer
    rw [outcome, hperform]
    rfl
  | error failure =>
    obtain ⟨fs', hperform, -⟩ := perform_of_refusal hfaults h hanswer
    rw [outcome, hperform]
    rfl

theorem outcome_sync (hfaults : fs.device.faults = Faults.none) :
    fs.outcome now .sync = .ok .done := by
  have hflush : Device.flush fs.device =
      .ok () { fs.device with flushes := fs.device.flushes + 1 } := by
    have hserved : fs.device.faults.flush = false := by
      rw [hfaults]
      rfl
    rw [Device.flush, if_neg (by simp [hserved])]
  simp only [outcome, perform, sync, onDevice, bind, EStateM.bind, hflush]
  rfl

theorem read_filled (hmounted : fs.content.Mounted diskSize)
    (hfaults : fs.device.faults = Faults.none) (text : String) (offset : Nat)
    (buffer : List UInt8) :
    ∃ fs', read text offset buffer fs = (fs.content.disk.filled text offset buffer, fs') ∧
      fs'.content = fs.content := by
  have hconsistent := hmounted.consistent
  obtain ⟨fs₁, hfaults₁, hcontent, hask⟩ := ask_of_faultless (fun v => v.locate text 0) hfaults
  have hdisk : fs₁.device.disk = fs.content.disk := congrArg Content.disk hcontent
  have hlocate : (fs.volume.locate text 0).answer fs.device.disk = _ :=
    hmounted.locate_answer text 0
  rw [hlocate] at hask
  cases hresolve : fs.content.disk.resolve text 0 with
  | error reason =>
    rw [hresolve] at hask
    refine ⟨fs₁, ?_, hcontent⟩
    simp only [FileSystem.read, hask, Disk.filled, hresolve]
    rfl
  | ok id =>
    have hid := Disk.resolve_reachable hresolve
    rw [hresolve] at hask
    by_cases hregular : (fs.content.disk.inode id).isRegular = true
    · have hblocks : ∀ index < (fs.content.disk.inode id).blockCount,
          ((fs.content.disk.inode id).pointer index).toNat < fs₁.device.disk.size := by
        intro index hindex
        obtain ⟨hk, hrefers⟩ := hconsistent.refers_pointer_index hid hindex
        rw [hdisk]
        exact hmounted.lt_size (hconsistent.bounds hmounted.low hrefers).2
      obtain ⟨accesses, hread⟩ := Inode.readInto_of_faultless (hconsistent.formed hid) hregular
        hfaults₁ hblocks offset buffer
      refine ⟨{ fs₁ with device := { fs₁.device with accesses := accesses } }, ?_, hcontent⟩
      rw [hdisk] at hread
      simp only [FileSystem.read, hask, Except.map, Failure.ofRefusal, Failure.keeping, hread,
        Disk.filled, hresolve, if_pos hregular, hdisk]
    · have hread : (fs.content.disk.inode id).readInto offset buffer fs₁.device =
          (⟨.error (.refused .isADirectory), buffer⟩, fs₁.device) := by
        simp only [Inode.readInto, Inode.readable, if_neg hregular]
      refine ⟨fs₁, ?_, hcontent⟩
      simp only [FileSystem.read, hask, Except.map, Failure.ofRefusal, Failure.keeping, hread,
        Disk.filled, hresolve, if_neg hregular]

theorem outcome_read (hmounted : fs.content.Mounted diskSize)
    (hfaults : fs.device.faults = Faults.none) (text : String) (offset : Nat)
    (buffer : List UInt8) :
    fs.outcome now (.read text offset buffer) =
      (fs.content.disk.filled text offset buffer).outcome.map fun count =>
        .filled count (fs.content.disk.filled text offset buffer).buffer := by
  obtain ⟨fs', hread, -⟩ := read_filled hmounted hfaults text offset buffer
  rw [outcome]
  simp only [perform, hread]
  cases hfilled : fs.content.disk.filled text offset buffer with
  | mk result filled => cases result <;> rfl

theorem outcome_resolve (hmounted : fs.content.Mounted diskSize)
    (hfaults : fs.device.faults = Faults.none) (text : String) : fs.outcome now (.lookup text) =
      (Failure.ofRefusal (fs.content.disk.resolve text 0)).map Response.inode := by
  rw [outcome_asks hfaults (asks_lookup now text)]
  exact congrArg (Except.map Response.inode) (hmounted.resolve_answer text)

theorem lookup_ok_iff (hmounted : fs.content.Mounted diskSize)
    (hfaults : fs.device.faults = Faults.none) {text : String} :
    (∃ id, fs.outcome now (.lookup text) = .ok (.inode id)) ↔
      ∃ id, fs.content.disk.resolve text 0 = .ok id := by
  rw [outcome_resolve hmounted hfaults]
  cases fs.content.disk.resolve text 0 with
  | ok id => exact ⟨fun _ => ⟨id, rfl⟩, fun _ => ⟨id, rfl⟩⟩
  | error reason => exact ⟨nofun, nofun⟩

theorem lookup_error_iff (hmounted : fs.content.Mounted diskSize)
    (hfaults : fs.device.faults = Faults.none) {text : String} {reason : Error} :
    fs.outcome now (.lookup text) = .error (.refused reason) ↔
      fs.content.disk.resolve text 0 = .error reason := by
  rw [outcome_resolve hmounted hfaults]
  cases fs.content.disk.resolve text 0 with
  | ok id => exact ⟨nofun, nofun⟩
  | error other =>
    constructor
    · rintro ⟨⟩
      rfl
    · rintro ⟨⟩
      rfl

theorem outcome_lookup (hmounted : fs.content.Mounted diskSize)
    (hfaults : fs.device.faults = Faults.none) {text : String} {path : Path}
    (htext : Path.ofString text = .ok path) : fs.outcome now (.lookup text) =
      (Failure.ofRefusal (fs.content.disk.walk rootId path)).map Response.inode := by
  rw [outcome_resolve hmounted hfaults, Disk.resolve_zero htext]

theorem outcome_attributes (hmounted : fs.content.Mounted diskSize)
    (hfaults : fs.device.faults = Faults.none) {text : String} {path : Path} {id : UInt32}
    (htext : Path.ofString text = .ok path) (hwalk : fs.content.disk.walk rootId path = .ok id) :
    fs.outcome now (.attributes text) =
      .ok (.attributes ((fs.content.disk.inode id).attributes id)) := by
  have hanswer := hmounted.attributes_answer htext
  rw [hwalk] at hanswer
  rw [outcome_asks hfaults (asks_attributes now text)]
  exact congrArg (Except.map Response.attributes) hanswer

variable (hsound : fs.content.Sound diskSize) (hfaults : fs.device.faults = Faults.none)

include hsound hfaults

theorem outcome_remount : fs.outcome now .remount = .ok .done := by
  obtain ⟨device, hmount, -⟩ := Device.mount_of_load hfaults hsound.load_answer
  simp only [outcome, perform, remount, onDevice, bind, EStateM.bind, hmount]
  rfl

/-- What a call leaves: the effects it decides on are carried out. -/
theorem content_after (now : UInt32) (request : Request) : (fs.after now request).content =
    match (request.effects fs.volume now).answer fs.device.disk with
    | .ok effects => fs.content.after effects
    | .error _ => fs.content := by
  by_cases hremount : request = .remount
  · subst hremount
    obtain ⟨-, hcontent | ⟨volume, hload, hcontent⟩⟩ := after_remount fs now
    · exact hcontent
    · obtain rfl := Except.ok.inj (hsound.load_answer.symm.trans hload)
      exact hcontent
  obtain ⟨-, hcontent⟩ := after_of_faultless hsound.mounted.fits hfaults now hremount
    fun effects hplan => (hsound.restores_request hplan).1
  cases hplan : (request.effects fs.volume now).answer fs.device.disk with
  | error failure =>
    rcases hcontent with hsame | ⟨effects, heffects, -⟩
    · exact hsame
    · rw [hplan] at heffects
      cases heffects
  | ok effects =>
    by_cases hempty : effects = []
    · subst hempty
      rcases hcontent with hsame | ⟨effects, heffects, hcontent⟩
      · exact hsame
      · obtain rfl := Except.ok.inj (hplan.symm.trans heffects)
        exact hcontent
    · obtain ⟨α, plan, f, h⟩ := exists_transacts hplan hempty
      rw [h.effects] at hplan
      obtain ⟨update, hupdate, rfl⟩ := Query.answer_map_eq_ok.mp hplan
      obtain ⟨fs', hperform, hcontent⟩ := perform_of_granted hsound hfaults h hupdate
      rw [after, hperform]
      exact hcontent

theorem outcome_transacts {plan : Volume → Query (Update α)} {f : α → Response}
    (h : Transacts now request plan f) : fs.outcome now request =
      ((plan fs.volume).answer fs.device.disk).map fun update => f update.result := by
  cases hplan : (plan fs.volume).answer fs.device.disk with
  | ok update =>
    obtain ⟨fs', hperform, -⟩ := perform_of_granted hsound hfaults h hplan
    rw [outcome, hperform]
    rfl
  | error failure =>
    obtain ⟨fs', hperform, -⟩ := perform_of_refused hfaults h hplan
    rw [outcome, hperform]
    rfl

end FileSystem

end BlockFS
