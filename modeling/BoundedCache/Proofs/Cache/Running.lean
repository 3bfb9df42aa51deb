import BoundedCache.Cache.Basic

/-!
# Finding a cache running

The first operation on a cache starts it, and so does the first command of a hook.  The setting
of a cache stays where it is then: the rule of expiration, the clock, the hooks, the loader and
its calls.
-/

namespace BoundedCache

namespace Cache

variable {K V : Type} {c c' c'' : Cache K V} {α : Type}

/-! ## Operations of a cache that runs -/

theorem whenRunning_lift {R : Cache K V → Cache K V → Prop}
    (htrans : ∀ {c c' c''}, R c c' → R c' c'' → R c c'') (hrun : R c (c.running true).2)
    {operation : Cache K V → α × Cache K V} (hoperation : ∀ c, R c (operation c).2) :
    R c (c.whenRunning operation).2 := by
  unfold whenRunning
  split
  · rename_i heq
    rwa [heq] at hrun
  · rename_i next heq
    rw [heq] at hrun
    exact htrans hrun (hoperation next)

theorem ifRunning_lift {R : Cache K V → Cache K V → Prop}
    (htrans : ∀ {c c' c''}, R c c' → R c' c'' → R c c'') (hrun : R c (c.running false).2)
    (idle : α) {operation : Cache K V → α × Cache K V} (hoperation : ∀ c, R c (operation c).2) :
    R c (c.ifRunning idle operation).2 := by
  unfold ifRunning
  split
  · rename_i next heq
    rw [heq] at hrun
    exact htrans hrun (hoperation next)
  · rename_i heq
    rwa [heq] at hrun

/-! ## Availability -/

/-- Whether a strict operation finds the cache running. -/
def available (c : Cache K V) : Bool := (c.running true).1.isOk

variable {operation : Cache K V → α × Cache K V}

theorem whenRunning_of_available (h : c.available = true) :
    c.whenRunning operation =
      (.ok (operation (c.running true).2).1, (operation (c.running true).2).2) := by
  unfold available at h
  unfold whenRunning
  split
  · rename_i herror
    rw [herror] at h
    cases h
  · rename_i hok
    rw [hok]
    rfl

theorem whenRunning_of_unavailable (c : Cache K V) (operation : Cache K V → α × Cache K V)
    (h : c.available = false) :
    ∃ e, c.whenRunning operation = (.error e, (c.running true).2) := by
  unfold available at h
  unfold whenRunning
  split
  · rename_i herror
    rw [herror]
    exact ⟨_, rfl⟩
  · rename_i hok
    rw [hok] at h
    cases h

/-- Whoever finds the cache running, the cache afterwards is the same. -/
theorem running_lenient (c : Cache K V) :
    c.running false = (.ok c.available, (c.running true).2) := by
  unfold available running Lifecycle.lazyStart Lifecycle.availability
  by_cases hready : c.lifecycle = .ready
  · simp only [hready, if_true]
    rcases (c.setLifecycle .starting).startSweeper with ⟨⟨e⟩ | ⟨⟨⟩⟩, world⟩
    · rfl
    · by_cases hrunning :
          (world.setLifecycle world.lifecycle.started).lifecycle = .running <;>
        simp only [hrunning, if_true, if_false] <;> rfl
  · by_cases hrunning : c.lifecycle = .running <;>
      simp only [hready, hrunning, if_true, if_false] <;> rfl

theorem ifRunning_eq_ite (c : Cache K V) (idle : α) :
    c.ifRunning idle operation =
      if c.available then operation (c.running true).2 else (idle, (c.running true).2) := by
  unfold ifRunning
  rw [running_lenient]
  cases c.available <;> rfl

/-! ## The setting -/

/-- The two caches have the same setting. -/
structure SameSetting (c c' : Cache K V) : Prop where
  name_eq : c'.name = c.name
  expiration_eq : c'.expiration = c.expiration
  hooks_eq : c'.hooks = c.hooks
  clock_eq : c'.clock = c.clock
  loader_eq : c'.loader = c.loader
  loaderCalls_eq : c'.loaderCalls = c.loaderCalls

theorem SameSetting.refl (c : Cache K V) : SameSetting c c := ⟨rfl, rfl, rfl, rfl, rfl, rfl⟩

theorem SameSetting.trans (h : SameSetting c c') (h' : SameSetting c' c'') :
    SameSetting c c'' where
  name_eq := h'.name_eq.trans h.name_eq
  expiration_eq := h'.expiration_eq.trans h.expiration_eq
  hooks_eq := h'.hooks_eq.trans h.hooks_eq
  clock_eq := h'.clock_eq.trans h.clock_eq
  loader_eq := h'.loader_eq.trans h.loader_eq
  loaderCalls_eq := h'.loaderCalls_eq.trans h.loaderCalls_eq

theorem sameSetting_setLifecycle (c : Cache K V) (state : Lifecycle) :
    SameSetting c (c.setLifecycle state) := ⟨rfl, rfl, rfl, rfl, rfl, rfl⟩

theorem sameSetting_startSweeper (c : Cache K V) : SameSetting c c.startSweeper.2 := by
  unfold startSweeper
  split
  · exact .refl c
  · split
    · exact ⟨rfl, rfl, rfl, rfl, rfl, rfl⟩
    · exact .refl c

theorem sameSetting_lazyStart (c : Cache K V) (strict : Bool) :
    SameSetting c (Lifecycle.lazyStart lifecycle setLifecycle strict startSweeper c).2 := by
  unfold Lifecycle.lazyStart
  by_cases hready : c.lifecycle = .ready
  · rw [if_pos hready]
    have hstart := (c.sameSetting_setLifecycle .starting).trans (sameSetting_startSweeper _)
    rcases hanswer : (c.setLifecycle .starting).startSweeper with ⟨⟨e⟩ | ⟨⟨⟩⟩, world⟩
    all_goals
      rw [hanswer] at hstart
      exact hstart.trans (sameSetting_setLifecycle _ _)
  · rw [if_neg hready]
    exact .refl c

theorem sameSetting_running (c : Cache K V) (strict : Bool) :
    SameSetting c (c.running strict).2 := by
  have hstart := c.sameSetting_lazyStart strict
  unfold running
  split
  · rename_i hok
    rwa [hok] at hstart
  · rename_i hother
    rw [hother] at hstart
    exact hstart.trans ⟨rfl, rfl, rfl, rfl, rfl, rfl⟩

end Cache

end BoundedCache
