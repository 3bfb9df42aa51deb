import BoundedCache.Proofs.Load.Heading

/-!
# What a task will find

Once a task has called the loader it is settled what it will find: its `fate` is a value with
the attributes to write it under, or none.  Before that its fate still depends on how often
the loader will have been called for its key by then.

A task that `Follows` another is that task some turns later: what it may find now, it might
have found before.  So a value that is found in the end is one that the loader gives for the
key, under the attributes that the loader makes of those that the load began with, whatever
stops there were between.
-/

namespace BoundedCache

variable {K V ρ : Type}

/-- The value that an outcome is, if it is one, with the attributes that there are. -/
def LoadOutcome.found? (attributes : Attributes) : LoadOutcome V → Option (Attributes × V)
  | .value found => some (attributes, found)
  | _ => none

/-- A job passes on what it has found. -/
theorem LoadDesk.found?_jobOutcome (attributes : Attributes) (outcome : LoadOutcome V) :
    (jobOutcome outcome).found? attributes = outcome.found? attributes := by
  cases outcome <;> rfl

namespace LoadProgram

variable {a b : Attributes} {program rest : LoadProgram V} {outcome : LoadOutcome V}

/-- What a program finds in the end. -/
def fate (program : LoadProgram V) (a : Attributes) : Option (Attributes × V) :=
  (program.runThrough a).2.found? (program.runThrough a).1

theorem fate_eq_some {value : V} :
    program.fate a = some (b, value) ↔ program.runThrough a = (b, .value value) := by
  unfold fate
  rcases program.runThrough a with ⟨c, outcome⟩
  cases outcome <;> simp [LoadOutcome.found?]

theorem fate_of_finished (h : program.run a = (b, .finished outcome)) :
    program.fate a = outcome.found? b := by
  rw [fate, runThrough_of_finished h]

theorem fate_of_atGate (h : program.run a = (b, .atGate rest)) :
    program.fate a = rest.fate b := by
  rw [fate, runThrough_of_atGate h, fate]

theorem fate_of_offloaded (h : program.run a = (b, .offloaded outcome)) :
    program.fate a = outcome.found? b := by
  rw [fate, runThrough_of_offloaded h]

end LoadProgram

/-- Whether a task has yet to call the loader. -/
def Phase.awaitsCall : Phase V → Bool
  | .fresh none | .onJob .callLoader => true
  | _ => false

namespace LoadTask

variable {loader : Option (Loader K V)} {task later last : LoadTask K V}

/-- What the task will find, if the loader has been called `count` times for its key before
the task calls it. -/
def fate (loader : Option (Loader K V)) (task : LoadTask K V) (count : Nat) :
    Option (Attributes × V) :=
  match task.phase with
  | .fresh none | .onJob .callLoader =>
      loader.bind fun l => (l.programFor task count).fate task.attributes
  | .fresh (some program) | .atGate program | .ready program => program.fate task.attributes
  | .onJob (.find outcome) | .answered outcome => outcome.found? task.attributes

theorem fate_of_phase {phase : Phase V} (hphase : task.phase = phase) (count : Nat) :
    task.fate loader count = { task with phase := phase }.fate loader count := by
  rw [← hphase]

/-- A task heads for what it may find. -/
theorem heads_iff {attributes : Attributes} {value : V} :
    task.Heads loader attributes value ↔
      ∃ count, task.fate loader count = some (attributes, value) := by
  have hcalls : ∀ t : LoadTask K V, (∃ l, loader = some l ∧ ∃ count,
      (l.programFor t count).runThrough t.attributes = (attributes, .value value)) ↔
      ∃ count, (loader.bind fun l => (l.programFor t count).fate t.attributes) =
        some (attributes, value) := by
    intro t
    cases loader with
    | none => simp
    | some l => simp [LoadProgram.fate_eq_some]
  have hruns : ∀ (program : LoadProgram V) a,
      program.runThrough a = (attributes, .value value) ↔
        ∃ _ : Nat, program.fate a = some (attributes, value) := by
    intro program a
    rw [exists_const, LoadProgram.fate_eq_some]
  have hknown : ∀ (outcome : LoadOutcome V) a, (a = attributes ∧ outcome = .value value) ↔
      ∃ _ : Nat, outcome.found? a = some (attributes, value) := by
    intro outcome a
    cases outcome <;> simp [LoadOutcome.found?]
  obtain ⟨handle, forced, a, phase⟩ := task
  rcases phase with (_ | program) | program | program | (_ | outcome) | outcome
  · exact hcalls ⟨handle, forced, a, .fresh none⟩
  · exact hruns program a
  · exact hruns program a
  · exact hruns program a
  · exact hcalls ⟨handle, forced, a, .onJob .callLoader⟩
  · exact hknown outcome a
  · exact hknown outcome a

/-- The task is the other one some turns later. -/
structure Follows (loader : Option (Loader K V)) (later task : LoadTask K V) : Prop where
  handle_eq : later.handle = task.handle
  fate : ∀ count, ∃ before, later.fate loader count = task.fate loader before

theorem Follows.refl (loader : Option (Loader K V)) (task : LoadTask K V) :
    task.Follows loader task := ⟨rfl, fun count => ⟨count, rfl⟩⟩

theorem Follows.trans (h : last.Follows loader later) (h' : later.Follows loader task) :
    last.Follows loader task := by
  refine ⟨h.handle_eq.trans h'.handle_eq, fun count => ?_⟩
  obtain ⟨between, hlast⟩ := h.fate count
  obtain ⟨before, hlater⟩ := h'.fate between
  exact ⟨before, hlast.trans hlater⟩

/-- The same load, heading for the same. -/
theorem follows_of_fate_eq (hhandle : later.handle = task.handle)
    (hfate : ∀ count, later.fate loader count = task.fate loader count) :
    later.Follows loader task := ⟨hhandle, fun count => ⟨count, hfate count⟩⟩

theorem Follows.foresees {d : LoadDesk K V ρ} (h : later.Follows loader task)
    (hmem : task ∈ d.tasks) : d.Foresees loader later := by
  refine ⟨task, hmem, h.handle_eq.symm, fun attributes value hheads => ?_⟩
  obtain ⟨count, hfound⟩ := heads_iff.mp hheads
  obtain ⟨before, hsame⟩ := h.fate count
  exact heads_iff.mpr ⟨before, hsame.symm.trans hfound⟩

/-- Passing a gate, a task goes on as the same. -/
theorem follows_of_mem_openGate (loader : Option (Loader K V)) {d : LoadDesk K V ρ}
    [DecidableEq K] {key : K} (hmem : later ∈ (d.openGate key).tasks) :
    ∃ task ∈ d.tasks, later.Follows loader task ∧
      later.phase.awaitsCall = task.phase.awaitsCall := by
  obtain ⟨task, htask, rfl | ⟨rest, hphase, rfl⟩⟩ := LoadDesk.mem_openGate hmem
  · exact ⟨later, htask, .refl loader later, rfl⟩
  · refine ⟨task, htask, follows_of_fate_eq rfl fun count => ?_, ?_⟩
    · rw [task.fate_of_phase hphase]
      rfl
    · rw [hphase]
      rfl

end LoadTask

end BoundedCache
