import BlockFS.Proofs.Invariant.Formatted

/-!
What calls answer on a sound file system whose device does not fail: a transaction succeeds exactly
if its plan is granted, and then makes all of the changes planned; a question is answered from the
disk.
-/

set_option autoImplicit false
set_option relaxedAutoImplicit false

namespace BlockFS

/-- Every write of one block fails, and nothing else does. -/
def Faults.onBlock (block : UInt32) : Faults := ⟨fun _ _ => false, fun _ _ id => id == block, false⟩

def Faults.onBitmap : Faults := onBlock bitmapId

namespace Effect

variable {effect : Effect} {block : UInt32}

theorem served_onBlock (h : effect.target ≠ some block) : effect.Served (Faults.onBlock block) := by
  have hother : ∀ {id : UInt32}, some id ≠ some block → (id == block) = false := by
    intro id hne
    exact beq_eq_false_iff_ne.mpr fun heq => hne (congrArg some heq)
  cases effect with
  | store id contents => exact fun _ _ => hother h
  | overlay id start bytes => exact ⟨fun _ => rfl, fun _ _ => hother h⟩
  | saveBitmap => exact fun _ _ => hother h
  | mark ids used => trivial
  | charge count => trivial
  | credit count => trivial

theorem fails_onBlock {c : Content} (htarget : effect.target = some block)
    (hallowed : effect.Allowed c) : effect.Fails (Faults.onBlock block) c (.refused .io) := by
  have hfault : ∀ {id : UInt32}, some id = some block →
      ∀ accesses completed, (Faults.onBlock block).write accesses completed id = true := by
    intro id heq _ _
    exact beq_iff_eq.mpr (Option.some.inj heq)
  cases effect with
  | store id contents => exact ⟨rfl, hfault htarget⟩
  | overlay id start bytes => exact ⟨rfl, hallowed.2, hfault htarget⟩
  | saveBitmap => exact ⟨rfl, hfault htarget⟩
  | _ => cases htarget

end Effect

namespace FileSystem

variable {α : Type} {fs : FileSystem} {diskSize now : UInt32} {request : Request}

private theorem bind_pure_of_ok {action : EStateM Failure FileSystem α} {a : α} {fs' : FileSystem}
    (h : action fs = .ok a fs') (f : α → Response) :
    (do return f (← action) : EStateM Failure FileSystem Response) fs = .ok (f a) fs' := by
  simp only [bind, EStateM.bind, h]
  rfl

private theorem bind_pure_of_error {action : EStateM Failure FileSystem α} {failure : Failure}
    {fs' : FileSystem} (h : action fs = .error failure fs') (f : α → Response) :
    (do return f (← action) : EStateM Failure FileSystem Response) fs = .error failure fs' := by
  simp only [bind, EStateM.bind, h]

theorem error_of_bind {β : Type} {action : EStateM Failure FileSystem α}
    {next : α → EStateM Failure FileSystem β} {failure : Failure} {fs' : FileSystem}
    (hnext : ∀ a middle, ∃ b other, next a middle = .ok b other)
    (h : (action >>= next) fs = .error failure fs') : action fs = .error failure fs' := by
  simp only [bind, EStateM.bind] at h
  cases haction : action fs with
  | ok a middle =>
    obtain ⟨b, other, hok⟩ := hnext a middle
    rw [haction] at h
    cases hok.symm.trans h
  | error reason middle =>
    rw [haction] at h
    cases h
    rfl

/-- A call carries out a plan, and answers what a function makes of its result. -/
structure Transacts (now : UInt32) (request : Request) (plan : Volume → Query (Update α))
    (f : α → Response) : Prop where
  perform : perform now request = (do return f (← transact plan))
  effects : ∀ v, request.effects v now = (do return (← plan v).effects)

def Asks (now : UInt32) (request : Request) (question : Volume → Query α) (f : α → Response) :
    Prop :=
  perform now request = (do return f (← ask question))

/-! ### Transactions -/

theorem transacts_create (now : UInt32) (text : String) (permissions : UInt32) (type : FileType)
    (owner : Owner) : Transacts now (.create text permissions type owner)
      (fun v => v.create now text permissions type owner) .inode := ⟨rfl, fun _ => rfl⟩

theorem transacts_deleteFile (now : UInt32) (text : String) :
    Transacts now (.deleteFile text) (fun v => v.deleteFile text) fun _ => .done :=
  ⟨rfl, fun _ => rfl⟩

theorem transacts_deleteDirectory (now : UInt32) (text : String) :
    Transacts now (.deleteDirectory text) (fun v => v.deleteDirectory text) fun _ => .done :=
  ⟨rfl, fun _ => rfl⟩

theorem transacts_rename (now : UInt32) (source target : String) :
    Transacts now (.rename source target) (fun v => v.rename source target) fun _ => .done :=
  ⟨rfl, fun _ => rfl⟩

theorem transacts_setPermissions (now : UInt32) (text : String) (mode : UInt32) :
    Transacts now (.setPermissions text mode) (fun v => v.setPermissions text mode)
      fun _ => .done :=
  ⟨rfl, fun _ => rfl⟩

theorem transacts_setModified (now : UInt32) (text : String) (mtime : UInt32) :
    Transacts now (.setModified text mtime) (fun v => v.setModified text mtime) fun _ => .done :=
  ⟨rfl, fun _ => rfl⟩

theorem transacts_truncate (now : UInt32) (text : String) (length : Int) :
    Transacts now (.truncate text length) (fun v => v.truncate text length) fun _ => .done :=
  ⟨rfl, fun _ => rfl⟩

theorem transacts_write (now : UInt32) (text : String) (offset : Nat) (bytes : List UInt8) :
    Transacts now (.write text offset bytes) (fun v => v.write now text offset bytes) .written :=
  ⟨rfl, fun _ => rfl⟩

theorem transact_of_perform {plan : Volume → Query (Update α)} {f : α → Response}
    (h : Transacts now request plan f) {failure : Failure} {fs' : FileSystem}
    (hperform : perform now request fs = .error failure fs') :
    transact plan fs = .error failure fs' := by
  rw [h.perform] at hperform
  exact error_of_bind (fun _ _ => ⟨_, _, rfl⟩) hperform

theorem perform_of_refused (hfaults : fs.device.faults = Faults.none)
    {plan : Volume → Query (Update α)} {f : α → Response} (h : Transacts now request plan f)
    {failure : Failure} (hplan : (plan fs.volume).answer fs.device.disk = .error failure) :
    ∃ fs', perform now request fs = .error failure fs' ∧ fs'.content = fs.content := by
  obtain ⟨fs', htransact, -, hcontent⟩ := transact_of_error hfaults hplan
  exact ⟨fs', by rw [h.perform, bind_pure_of_error htransact], hcontent⟩

theorem perform_of_allowed (hfits : fs.volume.bitmap.Fits)
    (hfaults : fs.device.faults = Faults.none) {plan : Volume → Query (Update α)}
    {f : α → Response} (h : Transacts now request plan f) {update : Update α}
    (hplan : (plan fs.volume).answer fs.device.disk = .ok update)
    (hallowed : Effect.AllAllowed update.effects fs.content) :
    ∃ fs', perform now request fs = .ok (f update.result) fs' ∧
      fs'.content = fs.content.after update.effects := by
  obtain ⟨fs', htransact, -, hcontent⟩ := transact_of_ok hfits hfaults hplan hallowed
  exact ⟨fs', by rw [h.perform, bind_pure_of_ok htransact], hcontent⟩

section

variable {plan : Volume → Query (Update α)} {f : α → Response}
  (hsound : fs.content.Sound diskSize) (hfaults : fs.device.faults = Faults.none)
  (h : Transacts now request plan f)

include hsound hfaults h

theorem perform_of_granted {update : Update α}
    (hplan : (plan fs.volume).answer fs.device.disk = .ok update) :
    ∃ fs', perform now request fs = .ok (f update.result) fs' ∧
      fs'.content = fs.content.after update.effects := by
  have heffects : (request.effects fs.volume now).answer fs.device.disk = .ok update.effects := by
    rw [h.effects]
    exact Query.answer_map_eq_ok.mpr ⟨update, hplan, rfl⟩
  exact perform_of_allowed hsound.mounted.fits hfaults h hplan
    (hsound.restores_request heffects).1

theorem granted_of_perform {response : Response} {fs' : FileSystem}
    (hperform : perform now request fs = .ok response fs') :
    ∃ update, (plan fs.volume).answer fs.device.disk = .ok update ∧ response = f update.result ∧
      fs'.content = fs.content.after update.effects := by
  cases hplan : (plan fs.volume).answer fs.device.disk with
  | error failure =>
    obtain ⟨other, hother, -⟩ := perform_of_refused hfaults h hplan
    cases hother.symm.trans hperform
  | ok update =>
    obtain ⟨other, hother, hcontent⟩ := perform_of_granted hsound hfaults h hplan
    rw [hother] at hperform
    cases hperform
    exact ⟨update, rfl, rfl, hcontent⟩

theorem perform_of_same (other : FileSystem) (hnone : other.device.faults = Faults.none)
    (hsame : other.content = fs.content) {response : Response} {fs' : FileSystem}
    (hperform : perform now request fs = .ok response fs') :
    ∃ other', perform now request other = .ok response other' ∧ other'.content = fs'.content := by
  obtain ⟨update, hplan, rfl, hcontent⟩ := granted_of_perform hsound hfaults h hperform
  have hsound' : other.content.Sound diskSize := hsame ▸ hsound
  have hplan' : (plan other.volume).answer other.device.disk = .ok update := by
    have hvolume : other.volume = fs.volume := congrArg Content.volume hsame
    have hdisk : other.device.disk = fs.device.disk := congrArg Content.disk hsame
    rw [hvolume, hdisk]
    exact hplan
  obtain ⟨other', hother, hcontent'⟩ := perform_of_granted hsound' hnone h hplan'
  exact ⟨other', hother, by rw [hcontent', hsame, hcontent]⟩

end

/-- A call that decides on effects one of which is sure to fail, past others that are served and
allowed, fails there. -/
theorem perform_of_failing {plan : Volume → Query (Update α)} {f : α → Response}
    (h : Transacts now request plan f) (hfits : fs.volume.bitmap.Fits)
    (hread : ∀ accesses id, fs.device.faults.read accesses id = false) {update : Update α}
    (hplan : (plan fs.volume).answer fs.device.disk = .ok update) {first rest : List Effect}
    {effect : Effect} (hsplit : update.effects = first ++ effect :: rest)
    (hserved : ∀ e ∈ first, e.Served fs.device.faults)
    (hallowed : Effect.AllAllowed first fs.content) {failure : Failure}
    (hfailing : effect.Fails fs.device.faults (fs.content.after first) failure) :
    ∃ fs', perform now request fs = .error failure fs' ∧
      fs'.content = fs.content.after first := by
  obtain ⟨fs', htransact, -, hcontent⟩ :=
    transact_of_failing hfits hread hplan hsplit hserved hallowed hfailing
  exact ⟨fs', by rw [h.perform, bind_pure_of_error htransact], hcontent⟩

theorem exists_transacts {v : Volume} {disk : Disk} {effects : List Effect}
    (heffects : (request.effects v now).answer disk = .ok effects) (hne : effects ≠ []) :
    ∃ (α : Type) (plan : Volume → Query (Update α)) (f : α → Response),
      Transacts now request plan f := by
  cases request with
  | create text permissions type owner =>
    exact ⟨_, _, _, transacts_create now text permissions type owner⟩
  | deleteFile text => exact ⟨_, _, _, transacts_deleteFile now text⟩
  | deleteDirectory text => exact ⟨_, _, _, transacts_deleteDirectory now text⟩
  | rename source target => exact ⟨_, _, _, transacts_rename now source target⟩
  | setPermissions text mode => exact ⟨_, _, _, transacts_setPermissions now text mode⟩
  | setModified text mtime => exact ⟨_, _, _, transacts_setModified now text mtime⟩
  | truncate text length => exact ⟨_, _, _, transacts_truncate now text length⟩
  | write text offset bytes => exact ⟨_, _, _, transacts_write now text offset bytes⟩
  | _ => exact absurd (Except.ok.inj heffects).symm hne

/-- A call that cannot write a block ends where it is to write it, past the effects that write
others. -/
theorem perform_unwritten (hfits : fs.volume.bitmap.Fits) {effects first rest : List Effect}
    {effect : Effect} {block : UInt32}
    (heffects : (request.effects fs.volume now).answer fs.device.disk = .ok effects)
    (hsplit : effects = first ++ effect :: rest) (hothers : ∀ e ∈ first, e.target ≠ some block)
    (htarget : effect.target = some block)
    (hallowed : Effect.AllAllowed first fs.content)
    (hlast : effect.Allowed (fs.content.after first)) :
    ∃ fs', perform now request (fs.withFaults (Faults.onBlock block)) = .error (.refused .io) fs' ∧
      fs'.content = fs.content.after first := by
  have hne : effects ≠ [] := by
    rw [hsplit]
    exact List.append_ne_nil_of_right_ne_nil first (List.cons_ne_nil _ _)
  obtain ⟨α, plan, f, h⟩ := exists_transacts heffects hne
  rw [h.effects] at heffects
  obtain ⟨update, hplan, rfl⟩ := Query.answer_map_eq_ok.mp heffects
  have hfits' : (fs.withFaults (Faults.onBlock block)).volume.bitmap.Fits := hfits
  exact perform_of_failing h hfits' (fun _ _ => rfl) hplan hsplit
    (fun e he => Effect.served_onBlock (hothers e he)) hallowed
    (Effect.fails_onBlock htarget hlast)

theorem perform_unsaved (hmounted : fs.content.Mounted diskSize) {effects first rest : List Effect}
    (heffects : (request.effects fs.volume now).answer fs.device.disk = .ok effects)
    (hsplit : effects = first ++ .saveBitmap :: rest)
    (hothers : ∀ e ∈ first, e.target ≠ some bitmapId)
    (hallowed : Effect.AllAllowed first fs.content) :
    ∃ fs', perform now request (fs.withFaults Faults.onBitmap) = .error (.refused .io) fs' ∧
      fs'.content = fs.content.after first := by
  refine perform_unwritten hmounted.fits heffects hsplit hothers rfl hallowed ?_
  rw [Effect.Allowed, Content.size_after]
  exact hmounted.bitmap_lt_size

/-! ### Questions -/

theorem asks_lookup (now : UInt32) (text : String) :
    Asks now (.lookup text) (fun v => v.lookup text) .inode := rfl

theorem asks_attributes (now : UInt32) (text : String) :
    Asks now (.attributes text) (fun v => v.attributes text) .attributes := rfl

theorem asks_list (now : UInt32) (text : String) :
    Asks now (.list text) (fun v => v.list text) fun entries =>
      .listing (entries.map fun (name, attributes) =>
        (String.ofList (Utf8.decode name), attributes)) := by
  funext fs
  simp only [perform, list, bind, EStateM.bind]
  cases ask (fun v => v.list text) fs <;> rfl

section

variable {question : Volume → Query α} {f : α → Response}
  (hfaults : fs.device.faults = Faults.none) (h : Asks now request question f)

include hfaults h

theorem perform_of_answer {a : α}
    (hanswer : (question fs.volume).answer fs.device.disk = .ok a) :
    ∃ fs', perform now request fs = .ok (f a) fs' ∧ fs'.content = fs.content := by
  obtain ⟨fs', -, hcontent, hask⟩ := ask_of_faultless question hfaults
  rw [hanswer] at hask
  exact ⟨fs', by rw [h, bind_pure_of_ok hask], hcontent⟩

theorem perform_of_refusal {failure : Failure}
    (hanswer : (question fs.volume).answer fs.device.disk = .error failure) :
    ∃ fs', perform now request fs = .error failure fs' ∧ fs'.content = fs.content := by
  obtain ⟨fs', -, hcontent, hask⟩ := ask_of_faultless question hfaults
  rw [hanswer] at hask
  exact ⟨fs', by rw [h, bind_pure_of_error hask], hcontent⟩

end

end FileSystem

end BlockFS
