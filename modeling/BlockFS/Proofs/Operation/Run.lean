import BlockFS.Proofs.Operation.Commit
import BlockFS.FileSystem

/-!
Calls one after the other. `after` is the state in which a call leaves a file system, whether it
succeeds or fails; `Request.effects` is what a call decides to change. `after_ends` says what any
call can do to the contents, and `after_of_faultless` what it does when the device does not fail.
-/

set_option autoImplicit false
set_option relaxedAutoImplicit false

namespace BlockFS

/-- What a call decides to change. -/
def Request.effects (v : Volume) (now : UInt32) : Request → Query (List Effect)
  | .create path permissions type owner =>
    return (← v.create now path permissions type owner).effects
  | .deleteFile path => return (← v.deleteFile path).effects
  | .deleteDirectory path => return (← v.deleteDirectory path).effects
  | .rename source target => return (← v.rename source target).effects
  | .setPermissions path mode => return (← v.setPermissions path mode).effects
  | .setModified path mtime => return (← v.setModified path mtime).effects
  | .truncate path length => return (← v.truncate path length).effects
  | .write path offset bytes => return (← v.write now path offset bytes).effects
  | _ => return []

namespace FileSystem

variable {α β : Type}

def ending : EStateM.Result Failure FileSystem α → FileSystem
  | .ok _ fs => fs
  | .error _ fs => fs

def after (fs : FileSystem) (now : UInt32) (request : Request) : FileSystem :=
  ending (perform now request fs)

/-- The states that calls lead to from a freshly formatted file system of the given size on a device
that never fails. -/
inductive Reached (diskSize : UInt32) : FileSystem → Prop
  | formatted {device device' : Device} {volume : Volume} {now : UInt32}
      (hfaults : device.faults = Faults.none)
      (hformat : Device.format diskSize now device = .ok volume device') :
      Reached diskSize ⟨device', volume⟩
  | called {fs : FileSystem} (now : UInt32) (request : Request) (h : Reached diskSize fs) :
      Reached diskSize (fs.after now request)

theorem after_of_ok {fs fs' : FileSystem} {now : UInt32} {request : Request} {response : Response}
    (h : perform now request fs = .ok response fs') : fs.after now request = fs' := by
  rw [after, h, ending]

theorem after_of_error {fs fs' : FileSystem} {now : UInt32} {request : Request} {failure : Failure}
    (h : perform now request fs = .error failure fs') : fs.after now request = fs' := by
  rw [after, h, ending]

theorem Reached.performed {diskSize : UInt32} {fs fs' : FileSystem} (h : Reached diskSize fs)
    {now : UInt32} {request : Request} {response : Response}
    (hperform : perform now request fs = .ok response fs') : Reached diskSize fs' :=
  after_of_ok hperform ▸ h.called now request

def withFaults (fs : FileSystem) (faults : Faults) : FileSystem :=
  { fs with device := fs.device.withFaults faults }

private theorem ending_bind_pure (action : EStateM Failure FileSystem α) (f : α → β)
    (fs : FileSystem) :
    ending ((do return f (← action) : EStateM Failure FileSystem β) fs) = ending (action fs) := by
  simp only [bind, EStateM.bind]
  cases action fs <;> rfl

/-- A question leaves what is held in memory as it is for the next. -/
theorem ask_bind (first : Volume → Query α) (second : Volume → α → Query β) :
    ask (fun v => first v >>= second v) = ask first >>= fun a => ask fun v => second v a := by
  funext fs
  have hrun := congrFun (Query.run_bind (first fs.volume) (second fs.volume)) fs.device
  simp only [bind, EStateM.bind] at hrun ⊢
  simp only [ask, onDevice, hrun]
  cases (first fs.volume).run fs.device <;> rfl

theorem commit_append (first second : List Effect) :
    commit (first ++ second) = commit first >>= fun _ => commit second := by
  induction first with
  | nil => rfl
  | cons effect rest ih => simp only [List.cons_append, commit, ih, bind_assoc]

theorem ask_spec (question : Volume → Query α) (fs : FileSystem) :
    ∃ fs', fs'.device.faults = fs.device.faults ∧ fs'.content = fs.content ∧
      (ask question fs = Failure.keeping ((question fs.volume).answer fs.device.disk) fs' ∨
        ask question fs = .error (.refused .io) fs') := by
  obtain ⟨accesses, hrun | hrun⟩ := (question fs.volume).run_eq_answer_or_io fs.device
  · refine ⟨{ fs with device := { fs.device with accesses := accesses } }, rfl, rfl, .inl ?_⟩
    rw [ask, onDevice, hrun]
    cases (question fs.volume).answer fs.device.disk <;> rfl
  · refine ⟨{ fs with device := { fs.device with accesses := accesses } }, rfl, rfl, .inr ?_⟩
    rw [ask, onDevice, hrun]
    rfl

theorem ask_of_readable (question : Volume → Query α) {fs : FileSystem}
    (hread : ∀ accesses id, fs.device.faults.read accesses id = false) :
    ∃ fs', fs'.device.faults = fs.device.faults ∧ fs'.content = fs.content ∧
      ask question fs = Failure.keeping ((question fs.volume).answer fs.device.disk) fs' := by
  obtain ⟨accesses, hrun⟩ := (question fs.volume).run_eq_answer fs.device hread
  refine ⟨{ fs with device := { fs.device with accesses := accesses } }, rfl, rfl, ?_⟩
  rw [ask, onDevice, hrun]
  cases (question fs.volume).answer fs.device.disk <;> rfl

theorem ask_of_faultless (question : Volume → Query α) {fs : FileSystem}
    (hfaults : fs.device.faults = Faults.none) :
    ∃ fs', fs'.device.faults = Faults.none ∧ fs'.content = fs.content ∧
      ask question fs = Failure.keeping ((question fs.volume).answer fs.device.disk) fs' := by
  have hread : ∀ accesses id, fs.device.faults.read accesses id = false := by
    simp [hfaults, Faults.none]
  obtain ⟨fs', hfaults', hanswer⟩ := ask_of_readable question hread
  exact ⟨fs', hfaults'.trans hfaults, hanswer⟩

theorem of_ask_of_faultless {question : Volume → Query α} {fs fs' : FileSystem} {a : α}
    (hfaults : fs.device.faults = Faults.none) (hask : ask question fs = .ok a fs') :
    (question fs.volume).answer fs.device.disk = .ok a ∧ fs'.device.faults = Faults.none ∧
      fs'.content = fs.content := by
  obtain ⟨other, hother, hcontent, hanswer⟩ := ask_of_faultless question hfaults
  rw [hask] at hanswer
  cases hquestion : (question fs.volume).answer fs.device.disk with
  | ok b =>
    rw [hquestion] at hanswer
    cases hanswer
    exact ⟨rfl, hother, hcontent⟩
  | error failure =>
    rw [hquestion] at hanswer
    cases hanswer

def SameContent (fs fs' : FileSystem) : Prop :=
  fs'.device.faults = fs.device.faults ∧ fs'.content = fs.content

theorem SameContent.trans {fs fs' fs'' : FileSystem} (h : SameContent fs fs')
    (h' : SameContent fs' fs'') : SameContent fs fs'' :=
  ⟨h'.1.trans h.1, h'.2.trans h.2⟩

/-- How a transaction can end: refused, stopped in front of one of its effects, or with all of them
carried out. -/
inductive Ending (plan : Volume → Query (Update α)) (fs : FileSystem) :
    EStateM.Result Failure FileSystem α → Prop
  | refused {failure : Failure} {fs' : FileSystem} (hsame : SameContent fs fs') :
      Ending plan fs (.error failure fs')
  | stopped {failure : Failure} {fs' : FileSystem} {update : Update α}
      (hplan : (plan fs.volume).answer fs.device.disk = .ok update)
      (hfaults : fs'.device.faults = fs.device.faults)
      (hstops : Content.Stops fs.device.faults fs.content update.effects fs'.content) :
      Ending plan fs (.error failure fs')
  | done {fs' : FileSystem} {update : Update α}
      (hplan : (plan fs.volume).answer fs.device.disk = .ok update)
      (hfaults : fs'.device.faults = fs.device.faults)
      (hcontent : fs'.content = fs.content.after update.effects) :
      Ending plan fs (.ok update.result fs')

theorem transact_ending (plan : Volume → Query (Update α)) {fs : FileSystem}
    (hfits : fs.volume.bitmap.Fits) :
    Ending plan fs (transact plan fs) := by
  obtain ⟨fs₁, hfaults, hcontent, hask | hask⟩ := ask_spec plan fs
  · cases hanswer : (plan fs.volume).answer fs.device.disk with
    | error failure =>
      rw [hanswer] at hask
      have htransact : transact plan fs = .error failure fs₁ := by
        simp only [transact, bind, EStateM.bind, hask, Failure.keeping]
      rw [htransact]
      exact .refused ⟨hfaults, hcontent⟩
    | ok update =>
      rw [hanswer] at hask
      have htransact : transact plan fs =
          (do commit update.effects; return update.result : EStateM Failure FileSystem α) fs₁ := by
        simp only [transact, bind, EStateM.bind, hask, Failure.keeping]
      have hfits₁ : fs₁.content.volume.bitmap.Fits := hcontent ▸ hfits
      rw [htransact]
      rcases commit_spec update.effects hfits₁ with ⟨fs₂, hcommit, hfaults₂, hcontent₂⟩ |
        ⟨failure, fs₂, hcommit, hfaults₂, hstops⟩
      · simp only [bind, EStateM.bind, hcommit]
        exact .done hanswer (hfaults₂.trans hfaults) (by rw [hcontent₂, hcontent])
      · rw [hfaults, hcontent] at hstops
        simp only [bind, EStateM.bind, hcommit]
        exact .stopped hanswer (hfaults₂.trans hfaults) hstops
  · have htransact : transact plan fs = .error (.refused .io) fs₁ := by
      simp only [transact, bind, EStateM.bind, hask]
    rw [htransact]
    exact .refused ⟨hfaults, hcontent⟩

theorem Ending.content {plan : Volume → Query (Update α)} {fs : FileSystem}
    {result : EStateM.Result Failure FileSystem α} (h : Ending plan fs result) :
    (ending result).device.faults = fs.device.faults ∧
      ((ending result).content = fs.content ∨
        ∃ update, (plan fs.volume).answer fs.device.disk = .ok update ∧
          Content.Ends fs.device.faults fs.content update.effects (ending result).content) := by
  cases h with
  | refused hsame => exact ⟨hsame.1, .inl hsame.2⟩
  | stopped hplan hfaults hstops => exact ⟨hfaults, .inr ⟨_, hplan, hstops.ends⟩⟩
  | done hplan hfaults hcontent =>
    refine ⟨hfaults, .inr ⟨_, hplan, ?_⟩⟩
    rw [ending, hcontent]
    exact Content.ends_after _ _ _

theorem transact_of_ok {plan : Volume → Query (Update α)} {fs : FileSystem}
    (hfits : fs.volume.bitmap.Fits) (hfaults : fs.device.faults = Faults.none) {update : Update α}
    (hanswer : (plan fs.volume).answer fs.device.disk = .ok update)
    (hallowed : Effect.AllAllowed update.effects fs.content) :
    ∃ fs', transact plan fs = .ok update.result fs' ∧ fs'.device.faults = Faults.none ∧
      fs'.content = fs.content.after update.effects := by
  obtain ⟨fs₁, hfaults₁, hcontent₁, hask⟩ := ask_of_faultless plan hfaults
  have hfits₁ : fs₁.content.volume.bitmap.Fits := hcontent₁ ▸ hfits
  obtain ⟨fs₂, hcommit, hfaults₂, hcontent₂⟩ :=
    commit_allowed hfits₁ (fun e _ => hfaults₁ ▸ e.served_none) (hcontent₁ ▸ hallowed)
  refine ⟨fs₂, ?_, hfaults₂.trans hfaults₁, by rw [hcontent₂, hcontent₁]⟩
  rw [hanswer] at hask
  simp only [transact, bind, EStateM.bind, hask, Failure.keeping, hcommit, pure, EStateM.pure]

theorem transact_of_store (plan : Volume → Query (Update α)) {fs : FileSystem}
    (hfaults : fs.device.faults = Faults.none) {a : α} {block : UInt32} {contents : Block}
    (hanswer : (plan fs.volume).answer fs.device.disk = .ok ⟨a, [.store block contents]⟩)
    (hblock : block.toNat < fs.device.disk.size) :
    ∃ fs', transact plan fs = .ok a fs' ∧ fs'.device.disk = fs.device.disk.set block contents ∧
      fs'.volume = fs.volume := by
  obtain ⟨fs₁, hfaults₁, hcontent₁, hask⟩ := ask_of_faultless plan hfaults
  rw [hanswer] at hask
  have hdisk₁ : fs₁.device.disk = fs.device.disk := congrArg Content.disk hcontent₁
  have hvolume₁ : fs₁.volume = fs.volume := congrArg Content.volume hcontent₁
  have hgranted : ¬ fs₁.device.RefusesWrite block :=
    Device.not_refusesWrite (by simp [hfaults₁, Faults.none]) (by rw [hdisk₁]; exact hblock)
  obtain ⟨fs₂, happly, hdisk₂, hvolume₂⟩ : ∃ fs₂, apply (.store block contents) fs₁ = .ok () fs₂ ∧
      fs₂.device.disk = fs₁.device.disk.set block contents ∧ fs₂.volume = fs₁.volume := by
    rw [apply, onDevice, Device.write_of_granted hgranted]
    exact ⟨_, rfl, rfl, rfl⟩
  refine ⟨fs₂, ?_, by rw [hdisk₂, hdisk₁], hvolume₂.trans hvolume₁⟩
  simp only [transact, bind, EStateM.bind, hask, Failure.keeping, commit, happly, pure,
    EStateM.pure]

theorem transact_of_failing {plan : Volume → Query (Update α)} {fs : FileSystem}
    (hfits : fs.volume.bitmap.Fits)
    (hread : ∀ accesses id, fs.device.faults.read accesses id = false) {update : Update α}
    (hanswer : (plan fs.volume).answer fs.device.disk = .ok update) {first rest : List Effect}
    {effect : Effect} (hsplit : update.effects = first ++ effect :: rest)
    (hserved : ∀ e ∈ first, e.Served fs.device.faults)
    (hallowed : Effect.AllAllowed first fs.content) {failure : Failure}
    (hfailing : effect.Fails fs.device.faults (fs.content.after first) failure) :
    ∃ fs', transact plan fs = .error failure fs' ∧ fs'.device.faults = fs.device.faults ∧
      fs'.content = fs.content.after first := by
  obtain ⟨fs₁, hfaults₁, hcontent₁, hask⟩ := ask_of_readable plan hread
  have hfits₁ : fs₁.content.volume.bitmap.Fits := hcontent₁ ▸ hfits
  rw [hanswer] at hask
  rw [← hfaults₁] at hserved hfailing
  rw [← hcontent₁] at hallowed hfailing
  obtain ⟨fs₂, hcommit, hfaults₂, hcontent₂⟩ :=
    commit_of_failing hfits₁ hserved hallowed hfailing rest
  refine ⟨fs₂, ?_, hfaults₂.trans hfaults₁, by rw [hcontent₂, hcontent₁]⟩
  simp only [transact, bind, EStateM.bind, hask, Failure.keeping, hsplit, hcommit]

theorem transact_of_error {plan : Volume → Query (Update α)} {fs : FileSystem}
    (hfaults : fs.device.faults = Faults.none) {failure : Failure}
    (hanswer : (plan fs.volume).answer fs.device.disk = .error failure) :
    ∃ fs', transact plan fs = .error failure fs' ∧ fs'.device.faults = Faults.none ∧
      fs'.content = fs.content := by
  obtain ⟨fs₁, hfaults₁, hcontent₁, hask⟩ := ask_of_faultless plan hfaults
  rw [hanswer] at hask
  refine ⟨fs₁, ?_, hfaults₁, hcontent₁⟩
  simp only [transact, bind, EStateM.bind, hask, Failure.keeping]

theorem ending_ask (question : Volume → Query α) (fs : FileSystem) :
    SameContent fs (ending (ask question fs)) := by
  obtain ⟨fs', hfaults, hcontent, hask | hask⟩ := ask_spec question fs
  · rw [hask]
    cases (question fs.volume).answer fs.device.disk <;> exact ⟨hfaults, hcontent⟩
  · rw [hask]
    exact ⟨hfaults, hcontent⟩

end FileSystem

private theorem fill_same (segments : List Segment) (buffer : List UInt8) (d : Device) :
    (fill segments buffer d).2.faults = d.faults ∧ (fill segments buffer d).2.disk = d.disk := by
  induction segments generalizing buffer d with
  | nil => exact ⟨rfl, rfl⟩
  | cons segment rest ih =>
    by_cases h : d.RefusesRead segment.block
    · simp only [fill, Device.read_of_refused h, and_self]
    · simp only [fill, Device.read_of_granted h]
      split
      · exact ⟨rfl, rfl⟩
      · exact ih _ { d with accesses := d.accesses + 1 }

theorem Inode.readInto_same (i : Inode) (offset : Nat) (buffer : List UInt8) (d : Device) :
    (i.readInto offset buffer d).2.faults = d.faults ∧
      (i.readInto offset buffer d).2.disk = d.disk := by
  rw [readInto]
  split
  · exact ⟨rfl, rfl⟩
  · exact fill_same _ buffer d

namespace Query

variable {α β : Type}

theorem answer_map (disk : Disk) (q : Query α) (f : α → β) :
    answer disk (do return f (← q)) = (q.answer disk).map f := by
  rw [answer_bind]
  cases q.answer disk <;> rfl

theorem answer_map_eq_ok {disk : Disk} {q : Query α} {f : α → β} {b : β} :
    answer disk (do return f (← q)) = .ok b ↔ ∃ a, q.answer disk = .ok a ∧ f a = b := by
  rw [answer_map]
  cases q.answer disk <;> simp [Except.map]

end Query

namespace FileSystem

variable {α : Type}

private theorem ending_read (now : UInt32) (path : String) (offset : Nat) (buffer : List UInt8)
    (fs : FileSystem) : SameContent fs (ending (perform now (.read path offset buffer) fs)) := by
  have hsame := ending_ask (fun v => v.locate path 0) fs
  have hread : SameContent fs (read path offset buffer fs).2 := by
    simp only [read]
    cases heq : ask (fun v => v.locate path 0) fs with
    | error failure fs' =>
      rw [heq] at hsame
      exact hsame
    | ok located fs' =>
      rw [heq] at hsame
      obtain ⟨hfaults, hdisk⟩ := located.2.readInto_same offset buffer fs'.device
      exact hsame.trans ⟨hfaults, congrArg (Content.mk · fs'.volume) hdisk⟩
  simp only [perform]
  split <;> rename_i heq <;> rw [heq] at hread <;> exact hread

private theorem ending_sync (fs : FileSystem) : SameContent fs (ending (sync fs)) := by
  rw [sync, onDevice]
  cases heq : Device.flush fs.device with
  | ok a device =>
    rw [Device.flush] at heq
    split at heq <;> cases heq
    exact ⟨rfl, rfl⟩
  | error failure device =>
    rw [Device.flush] at heq
    split at heq <;> cases heq
    exact ⟨rfl, rfl⟩

private theorem ending_query (question : Volume → Query α) (f : α → Response) (fs : FileSystem) :
    SameContent fs
      (ending ((do return f (← ask question) : EStateM Failure FileSystem Response) fs)) := by
  rw [ending_bind_pure]
  exact ending_ask question fs

/-- A call is a transaction or changes nothing. -/
theorem transaction_or_same (now : UInt32) {request : Request} (hrequest : request ≠ .remount) :
    (∃ (α : Type) (plan : Volume → Query (Update α)) (f : α → Response),
      perform now request = (do return f (← transact plan)) ∧
        ∀ v, request.effects v now = (do return (← plan v).effects)) ∨
      ∀ fs, SameContent fs (fs.after now request) := by
  cases request with
  | create path permissions type owner => exact .inl ⟨_, _, _, rfl, fun _ => rfl⟩
  | deleteFile path => exact .inl ⟨_, _, fun _ => .done, rfl, fun _ => rfl⟩
  | deleteDirectory path => exact .inl ⟨_, _, fun _ => .done, rfl, fun _ => rfl⟩
  | rename source target => exact .inl ⟨_, _, fun _ => .done, rfl, fun _ => rfl⟩
  | setPermissions path mode => exact .inl ⟨_, _, fun _ => .done, rfl, fun _ => rfl⟩
  | setModified path mtime => exact .inl ⟨_, _, fun _ => .done, rfl, fun _ => rfl⟩
  | truncate path length => exact .inl ⟨_, _, fun _ => .done, rfl, fun _ => rfl⟩
  | write path offset bytes => exact .inl ⟨_, _, _, rfl, fun _ => rfl⟩
  | lookup path => exact .inr fun fs => ending_query _ _ fs
  | attributes path => exact .inr fun fs => ending_query _ _ fs
  | list path =>
    refine .inr fun fs => ?_
    rw [after, perform, ending_bind_pure, list, ending_bind_pure]
    exact ending_ask _ fs
  | read path offset buffer => exact .inr fun fs => ending_read now path offset buffer fs
  | statistics => exact .inr fun fs => ⟨rfl, rfl⟩
  | usage => exact .inr fun fs => ⟨rfl, rfl⟩
  | sync =>
    refine .inr fun fs => ?_
    have hsync : perform now .sync = (do return (fun _ => Response.done) (← sync)) := rfl
    rw [after, hsync, ending_bind_pure]
    exact ending_sync fs
  | remount => exact absurd rfl hrequest

/-- What a call other than a remount can do: nothing, or it carries out the effects it decided on
until they end. -/
theorem after_ends {fs : FileSystem} (hfits : fs.volume.bitmap.Fits) (now : UInt32)
    {request : Request}
    (hrequest : request ≠ .remount) :
    (fs.after now request).device.faults = fs.device.faults ∧
      ((fs.after now request).content = fs.content ∨
        ∃ effects, (request.effects fs.volume now).answer fs.device.disk = .ok effects ∧
          Content.Ends fs.device.faults fs.content effects (fs.after now request).content) := by
  rcases transaction_or_same now hrequest with ⟨α, plan, f, hperform, heffects⟩ | hsame
  · rw [after, hperform, ending_bind_pure, heffects, Query.answer_map]
    obtain ⟨hfaults, hsame | ⟨update, hanswer, hends⟩⟩ := (transact_ending plan hfits).content
    · exact ⟨hfaults, .inl hsame⟩
    · exact ⟨hfaults, .inr ⟨update.effects, by rw [hanswer]; rfl, hends⟩⟩
  · exact ⟨(hsame fs).1, .inl (hsame fs).2⟩

theorem after_of_faultless {fs : FileSystem} (hfits : fs.volume.bitmap.Fits)
    (hfaults : fs.device.faults = Faults.none) (now : UInt32) {request : Request}
    (hrequest : request ≠ .remount)
    (hallowed : ∀ effects, (request.effects fs.volume now).answer fs.device.disk = .ok effects →
      Effect.AllAllowed effects fs.content) :
    (fs.after now request).device.faults = Faults.none ∧
      ((fs.after now request).content = fs.content ∨
        ∃ effects, (request.effects fs.volume now).answer fs.device.disk = .ok effects ∧
          (fs.after now request).content = fs.content.after effects) := by
  rcases transaction_or_same now hrequest with ⟨α, plan, f, hperform, heffects⟩ | hsame
  · rw [heffects, Query.answer_map] at hallowed ⊢
    rw [after, hperform, ending_bind_pure]
    cases hanswer : (plan fs.volume).answer fs.device.disk with
    | error failure =>
      obtain ⟨fs', htransact, hfaults', hcontent⟩ := transact_of_error hfaults hanswer
      rw [htransact]
      exact ⟨hfaults', .inl hcontent⟩
    | ok update =>
      obtain ⟨fs', htransact, hfaults', hcontent⟩ := transact_of_ok hfits hfaults hanswer
        (hallowed update.effects (by rw [hanswer]; rfl))
      rw [htransact]
      exact ⟨hfaults', .inr ⟨update.effects, rfl, hcontent⟩⟩
  · exact ⟨(hsame fs).1.trans hfaults, .inl (hsame fs).2⟩

end FileSystem

end BlockFS
