import BlockFS.Proofs.Invariant.Calls
import BlockFS.Proofs.Invariant.Counters
import BlockFS.Proofs.Invariant.Margin

/-!
Calls on an untrusted device. A file system is mounted from any disk at all; then, before every
call, everything on the device may be replaced, and during it any access may fail. What survives is
what is held in memory: the bitmap has a bit for each block of the file system, and as long as it
can be written the counter of free blocks is never too low.
-/

set_option autoImplicit false
set_option relaxedAutoImplicit false

namespace BlockFS

namespace Query

variable {α β : Type}

theorem run_map (q : Query α) (f : α → β) (d : Device) :
    (do return f (← q) : Query β).run d =
      match q.run d with
      | .ok a d' => .ok (f a) d'
      | .error failure d' => .error failure d' := by
  show (q.bind fun a => done (f a)).run d = _
  induction q generalizing d with
  | done a => rfl
  | fail failure => rfl
  | read id next ih =>
    by_cases h : d.RefusesRead id
    · rw [bind, run_read_of_refused h, run_read_of_refused h]
    · rw [bind, run_read_of_granted h, run_read_of_granted h]
      exact ih (d.disk.block id) { d with accesses := d.accesses + 1 }

theorem run_error {q : Query α} {holds : α → Prop} {d d' : Device} {failure : Failure}
    (hensures : Ensures Failure.Refusal holds (q.answer d.disk))
    (h : q.run d = .error failure d') : failure.Refusal := by
  obtain ⟨accesses, hrun | hrun⟩ := q.run_eq_answer_or_io d
  · rw [h] at hrun
    cases hanswer : q.answer d.disk with
    | ok a =>
      rw [hanswer] at hrun
      cases hrun
    | error other =>
      rw [hanswer] at hrun hensures
      cases hrun
      exact hensures
  · cases h.symm.trans hrun
    exact trivial

end Query

namespace FileSystem

variable {α : Type} {fs fs' : FileSystem} {now : UInt32} {request : Request}

theorem ask_ok {question : Volume → Query α} {a : α} (h : ask question fs = .ok a fs') :
    (question fs.volume).answer fs.device.disk = .ok a ∧ SameContent fs fs' := by
  rw [ask, onDevice] at h
  split at h
  · rename_i device hrun
    cases h
    obtain ⟨hanswer, hfaults, hdisk⟩ := Query.answer_of_run hrun
    exact ⟨hanswer, hfaults, congrArg (Content.mk · fs.volume) hdisk⟩
  · cases h

theorem ask_error {question : Volume → Query α} {holds : α → Prop} {failure : Failure}
    (hensures : Ensures Failure.Refusal holds ((question fs.volume).answer fs.device.disk))
    (h : ask question fs = .error failure fs') : failure.Refusal := by
  obtain ⟨device, hrun⟩ := onDevice_error h
  exact Query.run_error hensures hrun

/-- A call that carries out a plan: it is refused before it changes anything, or it carries out the
effects that it decided on. -/
inductive Runs (fs : FileSystem) (now : UInt32) (request : Request) :
    EStateM.Result Failure FileSystem Response → Prop
  | refused {failure : Failure} {fs' : FileSystem}
      (hask : ask (fun v => request.effects v now) fs = .error failure fs') :
      Runs fs now request (.error failure fs')
  | stopped {effects : List Effect} {failure : Failure} {decided fs' : FileSystem}
      (hask : ask (fun v => request.effects v now) fs = .ok effects decided)
      (hcommit : commit effects decided = .error failure fs') :
      Runs fs now request (.error failure fs')
  | done {effects : List Effect} {response : Response} {decided fs' : FileSystem}
      (hask : ask (fun v => request.effects v now) fs = .ok effects decided)
      (hcommit : commit effects decided = .ok () fs') :
      Runs fs now request (.ok response fs')

theorem runs_of_transacts {plan : Volume → Query (Update α)} {f : α → Response}
    (h : Transacts now request plan f) (fs : FileSystem) :
    Runs fs now request (perform now request fs) := by
  have hdecide : ask (fun v => request.effects v now) fs =
      match ask plan fs with
      | .ok update decided => .ok update.effects decided
      | .error failure decided => .error failure decided := by
    simp only [ask, onDevice, h.effects, Query.run_map]
    cases (plan fs.volume).run fs.device <;> rfl
  rw [h.perform]
  simp only [transact, bind, EStateM.bind]
  cases hask : ask plan fs with
  | error failure decided =>
    rw [hask] at hdecide
    exact .refused hdecide
  | ok update decided =>
    rw [hask] at hdecide
    dsimp only
    cases hcommit : commit update.effects decided with
    | error failure fs' => exact .stopped hdecide hcommit
    | ok _ fs' => exact .done hdecide hcommit

theorem Runs.ending_eq {result : EStateM.Result Failure FileSystem Response}
    (h : Runs fs now request result) : SameContent fs (ending result) ∨
      ∃ effects decided, ask (fun v => request.effects v now) fs = .ok effects decided ∧
        ending result = ending (commit effects decided) := by
  cases h with
  | refused hask =>
    have hending := ending_ask (fun v => request.effects v now) fs
    rw [hask] at hending
    exact .inl hending
  | stopped hask hcommit => exact .inr ⟨_, _, hask, by rw [hcommit]; rfl⟩
  | done hask hcommit => exact .inr ⟨_, _, hask, by rw [hcommit]; rfl⟩

end FileSystem

structure Call where
  state : FileSystem
  now : UInt32
  request : Request

namespace Call

def decides (call : Call) : EStateM.Result Failure FileSystem (List Effect) :=
  FileSystem.ask (fun v => call.request.effects v call.now) call.state

def released (call : Call) : Nat :=
  match call.decides with
  | .ok effects fs => fs.returned effects
  | .error _ _ => 0

def Saves (call : Call) : Prop :=
  ∀ effects fs, call.decides = .ok effects fs → fs.Saves effects

end Call

namespace FileSystem

variable {fs : FileSystem} {now : UInt32} {request : Request} {released : Nat}

/-- The same file system with everything on its device replaced, and another plan of faults. -/
def facing (fs : FileSystem) (disk : Disk) (faults : Faults) : FileSystem :=
  { fs with device := { fs.device with disk := disk }.withFaults faults }

theorem sized_after (h : fs.volume.Sized) (now : UInt32) (request : Request) :
    (fs.after now request).volume.Sized := by
  show (fs.after now request).content.volume.Sized
  by_cases hremount : request = .remount
  · subst hremount
    obtain ⟨-, hcontent | ⟨volume, hload, hcontent⟩⟩ := after_remount fs now
    · rw [hcontent]
      exact h
    · rw [hcontent]
      exact ((Volume.load_ensures _ _).of_ok hload).1
  obtain ⟨-, hcontent | ⟨effects, -, hends⟩⟩ := after_ends h.fits now hremount
  · rw [hcontent]
    exact h
  · obtain ⟨count, hcontent⟩ := hends.exists_take
    have hblocks := Content.blocks_after (c := fs.content) h.fits (effects.take count)
    rw [hcontent]
    refine ⟨?_, ?_⟩
    · rw [Bitmap.Fits, hblocks]
      exact h.fits
    · rw [hblocks, Content.superblock_after]
      exact h.blocks

theorem saves_of_spared (hsized : fs.volume.Sized) (hbitmap : fs.device.faults.SpareBitmap)
    (hdisk : bitmapId.toNat < fs.device.disk.size) : Call.Saves ⟨fs, now, request⟩ := by
  rintro effects decided hdecides first rest fs' - hcommit
  obtain ⟨-, hfaults, hcontent⟩ := ask_ok hdecides
  have hfits : decided.content.volume.bitmap.Fits := hcontent ▸ hsized.fits
  rcases commit_spec first hfits with ⟨other, hother, hfaults', hcontent'⟩ |
    ⟨failure, other, hother, -⟩
  · cases hother.symm.trans hcommit
    have hsize : fs'.content.disk.size = fs.content.disk.size := by
      rw [hcontent', Content.size_after, hcontent]
    refine Device.not_refusesWrite ?_ ?_
    · rw [hfaults', hfaults]
      exact fun accesses completed => hbitmap accesses completed
    · exact Nat.lt_of_lt_of_eq hdisk hsize.symm
  · cases hother.symm.trans hcommit

theorem released_le {effects : List Effect}
    (heffects : (request.effects fs.volume now).answer fs.device.disk = .ok effects) :
    Call.released ⟨fs, now, request⟩ ≤ (effects.map Effect.returned).sum := by
  rw [Call.released]
  split
  · rename_i decided hdecides
    obtain ⟨hanswer, -⟩ := ask_ok hdecides
    obtain rfl := Except.ok.inj (heffects.symm.trans hanswer)
    exact returned_le _ _
  · exact Nat.zero_le _

theorem keepsMargin_decided (hsized : fs.volume.Sized) (hmargin : fs.volume.Margin released)
    {effects : List Effect} {decided : FileSystem}
    (hdecides : Call.decides ⟨fs, now, request⟩ = .ok effects decided) :
    decided.KeepsMargin effects released ∧
      Call.released ⟨fs, now, request⟩ = decided.returned effects := by
  obtain ⟨hanswer, -, hcontent⟩ := ask_ok hdecides
  have hvolume : decided.volume = fs.volume := congrArg Content.volume hcontent
  have haccounts := ((hsized.questions fs.device.disk).effects now request).of_ok hanswer
  rw [← hvolume] at hsized hmargin haccounts
  refine ⟨.of_accounts hsized.fits haccounts hmargin, ?_⟩
  rw [Call.released, hdecides]

theorem margin_after (hsized : fs.volume.Sized) (hmargin : fs.volume.Margin released)
    (hsaves : Call.Saves ⟨fs, now, request⟩)
    (hlimit : released + Call.released ⟨fs, now, request⟩ < 2 ^ 31) :
    (fs.after now request).volume.Margin (released + Call.released ⟨fs, now, request⟩) := by
  have hunchanged : ∀ fs' : FileSystem, fs'.content = fs.content →
      fs'.volume.Margin (released + Call.released ⟨fs, now, request⟩) := by
    intro fs' hcontent
    have hvolume : fs'.volume = fs.volume := congrArg Content.volume hcontent
    rw [hvolume]
    exact hmargin.mono (Nat.le_add_right _ _)
  by_cases hremount : request = .remount
  · subst hremount
    obtain ⟨-, hcontent | ⟨volume, hload, hcontent⟩⟩ := after_remount fs now
    · exact hunchanged _ hcontent
    · obtain ⟨hsized', hcounts⟩ := (Volume.load_ensures _ _).of_ok hload
      have hvolume : (fs.after now .remount).volume = volume := congrArg Content.volume hcontent
      rw [hvolume]
      exact (hcounts.margin hsized'.fits).mono (Nat.zero_le _)
  rcases transaction_or_same now hremount with ⟨α, plan, f, hperform, heffects⟩ | hsame
  · rcases (runs_of_transacts ⟨hperform, heffects⟩ fs).ending_eq with
      hsame | ⟨effects, decided, hask, hending⟩
    · exact hunchanged _ hsame.2
    · obtain ⟨hkeeps, hreleased⟩ := keepsMargin_decided hsized hmargin hask
      rw [hreleased] at hlimit ⊢
      rw [after, hending]
      exact hkeeps.margin (hsaves _ _ hask) hlimit
  · exact hunchanged _ (hsame fs).2

/-- The states that calls lead to from a file system that was mounted from any disk at all, and the
calls, the last one first. Before each of them everything on the device is replaced, and any access
may fail. -/
inductive Tampered : List Call → FileSystem → Prop
  | mounted {device device' : Device} {volume : Volume}
      (hmount : Device.mount device = .ok volume device') : Tampered [] ⟨device', volume⟩
  | called {calls : List Call} {fs : FileSystem} (disk : Disk) (faults : Faults) (now : UInt32)
      (request : Request) (h : Tampered calls fs) :
      Tampered (⟨fs.facing disk faults, now, request⟩ :: calls)
        ((fs.facing disk faults).after now request)

namespace Tampered

variable {calls : List Call} (h : Tampered calls fs)

include h

theorem sized : fs.volume.Sized := by
  induction h with
  | mounted hmount =>
    exact ((Volume.load_ensures _ _).of_ok (Query.answer_of_run hmount).1).1
  | @called calls fs disk faults now request _ ih =>
    have hfacing : (fs.facing disk faults).volume.Sized := ih
    exact sized_after hfacing now request

/-- As long as the bitmap could be written and not very many blocks were given back, at least as
many blocks are counted as free as are clear. -/
theorem margin (hsaves : ∀ call ∈ calls, call.Saves)
    (hlimit : (calls.map Call.released).sum < 2 ^ 31) :
    fs.volume.Margin (calls.map Call.released).sum := by
  induction h with
  | mounted hmount =>
    obtain ⟨hsized, hcounts⟩ := (Volume.load_ensures _ _).of_ok (Query.answer_of_run hmount).1
    exact hcounts.margin hsized.fits
  | @called calls fs disk faults now request h ih =>
    rw [List.map_cons, List.sum_cons, Nat.add_comm] at hlimit ⊢
    have hmargin := ih (fun call hcall => hsaves call (List.mem_cons_of_mem _ hcall)) (by omega)
    exact margin_after h.sized hmargin (hsaves _ List.mem_cons_self) hlimit

end Tampered

end FileSystem

end BlockFS
