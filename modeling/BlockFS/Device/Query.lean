import BlockFS.Device.Access

/-!
Questions to a disk. A query is a finite tree of block reads, each branching on the contents it
finds, that ends in a value or a failure. It has no way to write. `answer` is its meaning on a disk
that can be read and `run` its execution on a device: `run_eq_answer` says that they agree when no
read fails, and `run_eq_answer_or_io` that a failing read can only turn the answer into a device
error.
-/

set_option autoImplicit false
set_option relaxedAutoImplicit false

namespace BlockFS

/-- A computation that reads blocks and changes nothing. -/
inductive Query (α : Type) where
  | done (a : α)
  | fail (failure : Failure)
  | read (id : UInt32) (next : Block → Query α)

namespace Query

variable {α β γ : Type}

def bind : Query α → (α → Query β) → Query β
  | done a, f => f a
  | fail failure, _ => fail failure
  | read id next, f => read id fun contents => (next contents).bind f

instance : Monad Query where
  pure := done
  bind := bind

theorem bind_done (q : Query α) : q.bind done = q := by
  induction q with
  | done a => rfl
  | fail failure => rfl
  | read id next ih => exact congrArg (read id) (funext ih)

theorem bind_assoc (q : Query α) (f : α → Query β) (g : β → Query γ) :
    (q.bind f).bind g = q.bind fun a => (f a).bind g := by
  induction q with
  | done a => rfl
  | fail failure => rfl
  | read id next ih => exact congrArg (read id) (funext ih)

instance : LawfulMonad Query :=
  .mk' Query (fun q => bind_done q) (fun _ _ => rfl) (fun q f g => bind_assoc q f g)

def refuse (reason : Error) : Query α := fail (.refused reason)

def block (id : UInt32) : Query Block := read id done

def ofExcept : Except Failure α → Query α
  | .ok a => done a
  | .error failure => fail failure

instance : MonadLift (Except Failure) Query := ⟨ofExcept⟩

/-- How a query ends, as a value: its own failures are caught, those of the device are not. -/
def attempt : Query α → Query (Except Failure α)
  | done a => done (.ok a)
  | fail failure => done (.error failure)
  | read id next => read id fun contents => (next contents).attempt

/-- The answer on a disk all of whose blocks can be read. -/
def answer (disk : Disk) : Query α → Except Failure α
  | done a => .ok a
  | fail failure => .error failure
  | read id next =>
    if disk.size ≤ id.toNat then .error (.refused .io) else answer disk (next (disk.block id))

def run : Query α → EStateM Failure Device α
  | done a => fun d => .ok a d
  | fail failure => fun d => .error failure d
  | read id next => fun d =>
    match Device.read id d with
    | .ok contents d => (next contents).run d
    | .error failure d => .error failure d

theorem answer_bind (disk : Disk) (q : Query α) (f : α → Query β) :
    (q >>= f).answer disk = q.answer disk >>= fun a => (f a).answer disk := by
  show (q.bind f).answer disk = _
  induction q with
  | done a => rfl
  | fail failure => rfl
  | read id next ih =>
    simp only [bind, answer]
    split
    · rfl
    · exact ih _

theorem run_bind (q : Query α) (f : α → Query β) :
    (q >>= f).run = q.run >>= fun a => (f a).run := by
  show (q.bind f).run = EStateM.bind q.run fun a => (f a).run
  induction q with
  | done a => rfl
  | fail failure => rfl
  | read id next ih =>
    funext d
    simp only [bind, run, EStateM.bind]
    cases Device.read id d with
    | ok contents d' => exact congrFun (ih contents) d'
    | error failure d' => rfl

theorem answer_lift (disk : Disk) (result : Except Failure α) :
    answer disk (liftM result) = result := by
  cases result <;> rfl

theorem answer_lift_refusal (disk : Disk) (result : Except Error α) :
    answer disk (liftM result) = Failure.ofRefusal result := by
  cases result <;> rfl

theorem answer_block (disk : Disk) (id : UInt32) :
    (block id).answer disk =
      if disk.size ≤ id.toNat then .error (.refused .io) else .ok (disk.block id) := rfl

theorem run_read_of_refused {d : Device} {id : UInt32} (h : d.RefusesRead id)
    (next : Block → Query α) :
    (read id next).run d = .error (.refused .io) { d with accesses := d.accesses + 1 } := by
  simp only [run, Device.read_of_refused h]

theorem run_read_of_granted {d : Device} {id : UInt32} (h : ¬ d.RefusesRead id)
    (next : Block → Query α) :
    (read id next).run d =
      (next (d.disk.block id)).run { d with accesses := d.accesses + 1 } := by
  simp only [run, Device.read_of_granted h]

theorem answer_read_of_granted {d : Device} {id : UInt32} (h : ¬ d.RefusesRead id)
    (next : Block → Query α) :
    (read id next).answer d.disk = (next (d.disk.block id)).answer d.disk :=
  if_neg fun hsize => h (.inl hsize)

theorem run_eq_answer_or_io (q : Query α) (d : Device) :
    ∃ accesses, q.run d = Failure.keeping (q.answer d.disk) { d with accesses := accesses } ∨
      q.run d = Failure.keeping (.error (.refused .io)) { d with accesses := accesses } := by
  induction q generalizing d with
  | done a => exact ⟨d.accesses, .inl rfl⟩
  | fail failure => exact ⟨d.accesses, .inl rfl⟩
  | read id next ih =>
    by_cases h : d.RefusesRead id
    · exact ⟨d.accesses + 1, .inr (run_read_of_refused h next)⟩
    · rw [run_read_of_granted h, answer_read_of_granted h]
      exact ih (d.disk.block id) { d with accesses := d.accesses + 1 }

theorem run_eq_answer (q : Query α) (d : Device)
    (hread : ∀ accesses id, d.faults.read accesses id = false) :
    ∃ accesses, q.run d = Failure.keeping (q.answer d.disk) { d with accesses := accesses } := by
  induction q generalizing d with
  | done a => exact ⟨d.accesses, rfl⟩
  | fail failure => exact ⟨d.accesses, rfl⟩
  | read id next ih =>
    by_cases h : d.RefusesRead id
    · have hsize : d.disk.size ≤ id.toNat := h.resolve_right (by simp [hread])
      exact ⟨d.accesses + 1, by rw [run_read_of_refused h, answer, if_pos hsize]; rfl⟩
    · rw [run_read_of_granted h, answer_read_of_granted h]
      exact ih (d.disk.block id) { d with accesses := d.accesses + 1 } hread

end Query

end BlockFS
