import BoundedCache.Lifecycle.History

/-!
# A lifecycle goes forward only

Whatever is called on a lifecycle, in whatever order, every state is at or past all that
were seen before, also those that a start saw while it went on.  There is one start at
most; it makes the cache run unless it fails or is overtaken by a shutdown, and then the
cache never runs.

A call that wants the cache to run looks at the state again after its start.  `Loop`
describes these looks without a bound: a derivation is a finite number of them, the last
of which answers.
-/

namespace BoundedCache.Lifecycle

variable {a b : Lifecycle}

/-! ## The order of the states -/

/-- Every state is at or past all the states before it. -/
def Ascending (states : List Lifecycle) : Prop := states.Pairwise (·.rank ≤ ·.rank)

theorem isDown_iff : a.isDown = true ↔ 3 ≤ a.rank := decide_eq_true_iff

theorem rank_le_shutDown : a.rank ≤ a.shutDown.2.rank := by cases a <;> decide

theorem rank_le_drained : a.rank ≤ a.drained.rank := by cases a <;> decide

theorem rank_le_started : a.rank ≤ a.started.rank := by cases a <;> decide

theorem rank_le_startFailed : a.rank ≤ a.startFailed.rank := by cases a <;> decide

theorem isDown_mono (hdown : a.isDown = true) (hle : a.rank ≤ b.rank) : b.isDown = true := by
  rw [isDown_iff] at *
  omega

theorem ne_of_isDown (hdown : a.isDown = true) : a ≠ .ready ∧ a ≠ .starting ∧ a ≠ .running := by
  refine ⟨?_, ?_, ?_⟩ <;> rintro rfl <;> exact absurd hdown (by decide)

theorem isDown_shutDown : a.shutDown.2.isDown = true := by cases a <;> decide

theorem isDown_startFailed : a.startFailed.isDown = true := by cases a <;> decide

theorem drained_cases : a.drained = a ∨ a.drained.isDown = true := by cases a <;> decide

theorem shutDown_answer : a.shutDown.1 = true ↔ ¬a.isDown = true := by cases a <;> decide

/-- What goes on from the last state of an ascent ascends with it. -/
theorem Ascending.join {first rest : List Lifecycle} (hfirst : Ascending (a :: (first ++ [b])))
    (hrest : Ascending (b :: rest)) : Ascending (a :: (first ++ b :: rest)) := by
  rw [← List.cons_append] at hfirst ⊢
  obtain ⟨hbefore, -, hbelow⟩ := List.pairwise_append.1 hfirst
  refine List.pairwise_append.2 ⟨hbefore, hrest, fun x hx y hy => ?_⟩
  have hxb : x.rank ≤ b.rank := hbelow x hx b (List.mem_singleton_self b)
  rcases List.mem_cons.1 hy with rfl | hy
  · exact hxb
  · exact Nat.le_trans hxb ((List.pairwise_cons.1 hrest).1 y hy)

theorem ascending_pair (hle : a.rank ≤ b.rank) : Ascending [a, b] := by
  simpa [Ascending] using hle

namespace Observed

variable {o p q : Observed} {steps : List StartStep}

/-! ## From one moment to a later one -/

/-- From `o` to `p` the states ascend, with those that were seen on the way. -/
structure Advances (o p : Observed) : Prop where
  states : ∃ seen, p.seen = o.seen ++ seen ∧ Ascending (o.state :: (seen ++ [p.state]))
  /-- Only a lifecycle that was not down has been shut down, and that once. -/
  shutdowns :
    p.shutdowns = o.shutdowns ∨
      (o.state.isDown = false ∧ p.state.isDown = true ∧ p.shutdowns = o.shutdowns + 1)

theorem Advances.rank_le (h : Advances o p) : o.state.rank ≤ p.state.rank := by
  obtain ⟨seen, -, hascending⟩ := h.states
  exact (List.pairwise_cons.1 hascending).1 _ (by simp)

theorem Advances.isDown (h : Advances o p) (hdown : o.state.isDown = true) :
    p.state.isDown = true :=
  isDown_mono hdown h.rank_le

/-- A change of the state alone, to a later one. -/
theorem advances_setState {o : Observed} {state : Lifecycle} (hle : o.state.rank ≤ state.rank) :
    Advances o (o.setState state) :=
  ⟨⟨[], by simp [setState], ascending_pair hle⟩, .inl rfl⟩

theorem Advances.trans (h : Advances o p) (h' : Advances p q) : Advances o q := by
  refine ⟨?_, ?_⟩
  · obtain ⟨first, hfirst, hascending⟩ := h.states
    obtain ⟨second, hsecond, hascending'⟩ := h'.states
    refine ⟨first ++ second, by rw [hsecond, hfirst, List.append_assoc], ?_⟩
    refine List.Pairwise.sublist ?_ (hascending.join hascending')
    simp
  · -- a second shutdown would have to take effect on a lifecycle that is down
    rcases h.shutdowns with hsame | ⟨hup, hdown, hone⟩
    · rcases h'.shutdowns with hsame' | ⟨hup', hdown', hone'⟩
      · exact .inl (hsame'.trans hsame)
      · refine .inr ⟨?_, hdown', by rw [hone', hsame]⟩
        exact Bool.eq_false_iff.2 fun hdown => by simp [h.isDown hdown] at hup'
    · rcases h'.shutdowns with hsame' | ⟨hup', -, -⟩
      · exact .inr ⟨hup, h'.isDown hdown, hsame'.trans hone⟩
      · simp [hdown] at hup'

theorem advances_look : Advances o o.look :=
  ⟨⟨[o.state], rfl, by simp [look, Ascending]⟩, .inl rfl⟩

theorem advances_shutDown : Advances o o.shutDown.2 := by
  refine ⟨⟨[], by simp [shutDown], ascending_pair rank_le_shutDown⟩, ?_⟩
  by_cases hdown : o.state.isDown = true
  · simp [shutDown, Lifecycle.shutDown, hdown]
  · exact .inr ⟨Bool.eq_false_iff.2 hdown, isDown_shutDown, by
      simp [shutDown, shutDown_answer.2 hdown]⟩

theorem advances_drained : Advances o (o.setState o.state.drained) :=
  advances_setState rank_le_drained

/-! ## A start -/

theorem startSteps_answer (steps : List StartStep) (o : Observed) :
    (startSteps steps o).1 = if .fail ∈ steps then .error noWorker else .ok () := by
  induction steps generalizing o with
  | nil => simp [startSteps]
  | cons step steps ih => cases step <;> simp [startSteps, ih]

/-- What the steps of a start do to the lifecycle. -/
structure Started (steps : List StartStep) (o p : Observed) : Prop where
  advances : Advances o p
  starts_eq : p.starts = o.starts
  /-- The only way to go on meanwhile is down. -/
  state_cases : p.state = o.state ∨ p.state.isDown = true
  seen_cases : ∀ s ∈ p.seen, s ∈ o.seen ∨ s = o.state ∨ s.isDown = true
  isDown_of_overtaken : .fail ∉ steps → .shutDown ∈ steps → p.state.isDown = true
  state_eq_of_quiet : .shutDown ∉ steps → o.state = .starting → p.state = .starting

/-- A start goes on from where a step of it has led. -/
theorem Started.cons {step : StartStep} (h : Started steps p q)
    (hadvances : Advances o p) (hstarts : p.starts = o.starts)
    (hseen : p.seen = o.seen ++ [p.state])
    (hstate : p.state = o.state ∨ p.state.isDown = true)
    (hshut : step = .shutDown → p.state.isDown = true)
    (hquiet : step ≠ .shutDown → o.state = .starting → p.state = .starting) :
    Started (step :: steps) o q where
  advances := hadvances.trans h.advances
  starts_eq := h.starts_eq.trans hstarts
  state_cases := by
    rcases h.state_cases with hsame | hdown
    · rwa [hsame]
    · exact .inr hdown
  seen_cases := by
    intro s hs
    rcases h.seen_cases s hs with hold | rfl | hdown
    · rw [hseen, List.mem_append, List.mem_singleton] at hold
      rcases hold with hold | rfl
      · exact .inl hold
      · exact .inr hstate
    · exact .inr hstate
    · exact .inr (.inr hdown)
  isDown_of_overtaken := by
    intro hfail hmem
    rcases List.mem_cons.1 hmem with heq | hmem
    · exact h.advances.isDown (hshut heq.symm)
    · exact h.isDown_of_overtaken (fun hfail' => hfail (List.mem_cons_of_mem _ hfail')) hmem
  state_eq_of_quiet := by
    intro hnone hstarting
    rw [List.mem_cons, not_or] at hnone
    exact h.state_eq_of_quiet hnone.2 (hquiet (Ne.symm hnone.1) hstarting)

theorem started_startSteps (steps : List StartStep) (o : Observed) :
    Started steps o (startSteps steps o).2 := by
  have hstay : Advances o o := advances_setState (Nat.le_refl _)
  induction steps generalizing o with
  | nil => exact ⟨hstay, rfl, .inl rfl, fun s hs => .inl hs, by simp, fun _ h => h⟩
  | cons step steps ih =>
      cases step with
      | fail => exact ⟨hstay, rfl, .inl rfl, fun s hs => .inl hs, by simp, fun _ h => h⟩
      | shutDown =>
          exact (ih o.shutDown.2.look (advances_setState (Nat.le_refl _))).cons
            (advances_shutDown.trans advances_look) rfl rfl (.inr isDown_shutDown)
            (fun _ => isDown_shutDown) (fun h => absurd rfl h)
      | drained =>
          refine (ih (o.setState o.state.drained).look (advances_setState (Nat.le_refl _))).cons
            (advances_drained.trans advances_look) rfl rfl ?_ (by simp) ?_
          · exact drained_cases
          · intro _ hstarting
            change o.state.drained = .starting
            rw [hstarting]
            rfl

/-- The lifecycle as its start finds it. -/
def begun (o : Observed) : Observed :=
  { o.setState .starting with starts := o.starts + 1 }.look

theorem start_eq (steps : List StartStep) (o : Observed) :
    start steps (o.setState .starting) = startSteps steps o.begun := rfl

theorem advances_begun (hready : o.state = .ready) : Advances o o.begun :=
  ⟨⟨[.starting], rfl, by simp [begun, look, setState, Ascending, hready, rank]⟩, .inl rfl⟩

/-! ## A call -/

theorem running_of_ne_ready (strict : Bool) (steps : List StartStep) (hready : o.state ≠ .ready) :
    o.running strict steps = (o.state.availability strict, o) :=
  if_neg hready

theorem running_of_ready (strict : Bool) (steps : List StartStep) (hready : o.state = .ready) :
    o.running strict steps =
      let p := (startSteps steps o.begun).2
      if .fail ∈ steps then
        (if strict then .error noWorker else .ok false, p.setState p.state.startFailed)
      else (p.state.started.availability strict, p.setState p.state.started) := by
  have hanswer := startSteps_answer steps o.begun
  rw [running, lazyStart, if_pos hready, start_eq]
  rcases hstart : startSteps steps o.begun with ⟨answer, p⟩
  obtain rfl : answer = if .fail ∈ steps then .error noWorker else .ok () := by
    rwa [hstart] at hanswer
  by_cases hfail : .fail ∈ steps
  · simp only [if_pos hfail]
  · simp only [if_neg hfail]
    rfl

/-- A start that fails, or that a shutdown overtakes. -/
def Spoilt (steps : List StartStep) : Prop := .fail ∈ steps ∨ .shutDown ∈ steps

/-- What a call that wants the cache to run does to a lifecycle that is ready. -/
structure FirstUse (steps : List StartStep) (o p : Observed) : Prop where
  advances : Advances o p
  starts_eq : p.starts = o.starts + 1
  seen_cases : ∀ s ∈ p.seen, s ∈ o.seen ∨ s = .starting ∨ s.isDown = true
  isDown_of_spoilt : Spoilt steps → p.state.isDown = true
  state_of_sound : ¬Spoilt steps → p.state = .running

theorem firstUse_running (strict : Bool) (steps : List StartStep) (hready : o.state = .ready) :
    FirstUse steps o (o.running strict steps).2 := by
  have h := started_startSteps steps o.begun
  rw [running_of_ready strict steps hready]
  generalize (startSteps steps o.begun).2 = p at h ⊢
  have hadvances : Advances o p := (advances_begun hready).trans h.advances
  have hseen : ∀ s ∈ p.seen, s ∈ o.seen ∨ s = .starting ∨ s.isDown = true := by
    intro s hs
    rcases h.seen_cases s hs with hold | hlater
    · have hcases : s ∈ o.seen ∨ s = .starting := by simpa [begun, look, setState] using hold
      exact hcases.imp_right .inl
    · exact .inr hlater
  by_cases hfail : .fail ∈ steps
  · simp only [if_pos hfail]
    exact ⟨hadvances.trans (advances_setState rank_le_startFailed), h.starts_eq, hseen,
      fun _ => isDown_startFailed, fun hsound => absurd (.inl hfail) hsound⟩
  · simp only [if_neg hfail]
    refine ⟨hadvances.trans (advances_setState rank_le_started), h.starts_eq, hseen, ?_, ?_⟩
    · rintro (hfail' | hshut)
      · exact absurd hfail' hfail
      · exact isDown_mono (h.isDown_of_overtaken hfail hshut) rank_le_started
    · intro hsound
      have hstarting : p.state = .starting :=
        h.state_eq_of_quiet (fun hshut => hsound (.inr hshut)) rfl
      change p.state.started = .running
      rw [hstarting]
      rfl

/-- The looks of a call at the lifecycle, with the start that it may still make.  At a
lifecycle that is being started the call would have to wait: there is no look at it. -/
inductive Loop (strict : Bool) :
    Option (List StartStep) → Observed → Except CacheError Bool → Observed → Prop where
  | running {start : Option (List StartStep)} {o : Observed} :
      o.state = .running → Loop strict start o (.ok true) o
  | down {start : Option (List StartStep)} {o : Observed} :
      o.state.isDown = true →
      Loop strict start o
        (if strict then .error (.unavailable o.state.name) else .ok false) o
  | spent {o : Observed} :
      o.state = .ready → Loop strict none o (.error (.unavailable o.state.name)) o
  | failed {steps : List StartStep} {o p : Observed} {e : CacheError} :
      o.state = .ready → start steps (o.setState .starting) = (.error e, p) →
      Loop strict (some steps) o (if strict then .error e else .ok false)
        (p.setState p.state.startFailed)
  | started {steps : List StartStep} {o p q : Observed} {answer : Except CacheError Bool} :
      o.state = .ready → start steps (o.setState .starting) = (.ok (), p) →
      Loop strict none (p.setState p.state.started) answer q →
      Loop strict (some steps) o answer q

theorem loop_of_running_or_isDown {start : Option (List StartStep)} (strict : Bool)
    (hstate : o.state = .running ∨ o.state.isDown = true) :
    Loop strict start o (o.state.availability strict) o := by
  rcases hstate with hrunning | hdown
  · rw [availability, if_pos hrunning]
    exact .running hrunning
  · rw [availability, if_neg (ne_of_isDown hdown).2.2]
    exact .down hdown

/-- The call comes to its answer. -/
theorem loop_running (strict : Bool) (steps : List StartStep) (hstate : o.state ≠ .starting) :
    Loop strict (some steps) o (o.running strict steps).1 (o.running strict steps).2 := by
  by_cases hready : o.state = .ready
  · have hfirst := firstUse_running strict steps hready
    have hanswer := startSteps_answer steps o.begun
    rw [running_of_ready strict steps hready] at hfirst ⊢
    rcases hstart : startSteps steps o.begun with ⟨answer, p⟩
    rw [hstart] at hanswer hfirst
    by_cases hfail : .fail ∈ steps
    · simp only [if_pos hfail] at hanswer ⊢
      exact .failed hready (by rw [start_eq, hstart, hanswer])
    · simp only [if_neg hfail] at hanswer hfirst ⊢
      refine .started hready (by rw [start_eq, hstart, hanswer])
        (loop_of_running_or_isDown strict ?_)
      by_cases hspoilt : Spoilt steps
      · exact .inr (hfirst.isDown_of_spoilt hspoilt)
      · exact .inl (hfirst.state_of_sound hspoilt)
  · rw [running_of_ne_ready strict steps hready]
    refine loop_of_running_or_isDown strict ?_
    cases h : o.state <;> simp_all [isDown_iff, rank]

/-! ## All calls -/

/-- What holds of a lifecycle between two calls. -/
structure Orderly (o : Observed) : Prop where
  state_ne : o.state ≠ .starting
  starts_le : o.starts ≤ 1
  starts_of_ready : o.state = .ready → o.starts = 0
  shutdowns_le : o.shutdowns ≤ 1
  shutdowns_of_up : o.state.isDown = false → o.shutdowns = 0
  running_not_seen : .running ∉ o.seen

theorem orderly_new : Orderly {} := by constructor <;> decide

theorem Advances.shutdowns_le (h : Advances o p) (ho : Orderly o) : p.shutdowns ≤ 1 := by
  rcases h.shutdowns with hsame | ⟨hup, -, hone⟩
  · exact hsame ▸ ho.shutdowns_le
  · have hnone := ho.shutdowns_of_up hup
    omega

theorem Advances.shutdowns_of_up (h : Advances o p) (ho : Orderly o)
    (hup : p.state.isDown = false) : p.shutdowns = 0 := by
  rcases h.shutdowns with hsame | ⟨-, hdown, -⟩
  · rw [hsame]
    exact ho.shutdowns_of_up (Bool.eq_false_iff.2 fun hdown => by simp [h.isDown hdown] at hup)
  · simp [hdown] at hup

theorem advances_step (o : Observed) (call : Call) : Advances o (o.step call) := by
  cases call with
  | running strict steps =>
      by_cases hready : o.state = .ready
      · exact (firstUse_running strict steps hready).advances
      · rw [step, running_of_ne_ready strict steps hready]
        exact advances_setState (Nat.le_refl _)
  | shutDown => exact advances_shutDown
  | drained => exact advances_drained

/-- A call enters the running state only by a start that nothing spoilt. -/
theorem step_state_eq_running (o : Observed) (call : Call) :
    (o.step call).state = .running ↔
      (o.state = .running ∧ call ≠ .shutDown) ∨
        ∃ strict steps, call = .running strict steps ∧ o.state = .ready ∧ ¬Spoilt steps := by
  cases call with
  | running strict steps =>
      by_cases hready : o.state = .ready
      · have hfirst := firstUse_running strict steps hready
        by_cases hspoilt : Spoilt steps
        · have hne := (ne_of_isDown (hfirst.isDown_of_spoilt hspoilt)).2.2
          simp only [step, hne, hready, false_iff]
          rintro (⟨h, -⟩ | ⟨_, _, heq, -, hsound⟩)
          · cases h
          · cases heq
            exact hsound hspoilt
        · simp only [step, hfirst.state_of_sound hspoilt, true_iff]
          exact .inr ⟨strict, steps, rfl, hready, hspoilt⟩
      · simp [step, running_of_ne_ready strict steps hready, hready]
  | shutDown =>
      have hne : o.shutDown.2.state ≠ .running := (ne_of_isDown isDown_shutDown).2.2
      simp [step, hne]
  | drained =>
      cases h : o.state <;> simp [step, setState, Lifecycle.drained, h]

theorem Orderly.next (ho : Orderly o) (call : Call) : Orderly (o.step call) := by
  have hadvances := advances_step o call
  have hshutdowns := hadvances.shutdowns_le ho
  have hup := hadvances.shutdowns_of_up ho
  cases call with
  | running strict steps =>
      by_cases hready : o.state = .ready
      · have hfirst := firstUse_running strict steps hready
        have hstate : (o.running strict steps).2.state ≠ .ready ∧
            (o.running strict steps).2.state ≠ .starting := by
          by_cases hspoilt : Spoilt steps
          · obtain ⟨hne, hne', -⟩ := ne_of_isDown (hfirst.isDown_of_spoilt hspoilt)
            exact ⟨hne, hne'⟩
          · simp [hfirst.state_of_sound hspoilt]
        have hstarts : (o.running strict steps).2.starts = 1 := by
          rw [hfirst.starts_eq, ho.starts_of_ready hready]
        refine ⟨hstate.2, Nat.le_of_eq hstarts, fun h => absurd h hstate.1, hshutdowns, hup,
          fun hseen => ?_⟩
        rcases hfirst.seen_cases _ hseen with hold | hstarting | hdown
        · exact ho.running_not_seen hold
        · cases hstarting
        · exact (ne_of_isDown hdown).2.2 rfl
      · rw [step, running_of_ne_ready strict steps hready]
        exact ho
  | shutDown =>
      obtain ⟨hready, hstarting, -⟩ := ne_of_isDown (isDown_shutDown (a := o.state))
      exact ⟨hstarting, ho.starts_le, fun h => absurd h hready, hshutdowns, hup,
        ho.running_not_seen⟩
  | drained =>
      have hsame := drained_cases (a := o.state)
      refine ⟨fun h => ?_, ho.starts_le, fun h => ?_, hshutdowns, hup, ho.running_not_seen⟩
      · rcases hsame with hsame | hdown
        · exact ho.state_ne (hsame ▸ h)
        · exact (ne_of_isDown hdown).2.1 h
      · rcases hsame with hsame | hdown
        · exact ho.starts_of_ready (hsame ▸ h)
        · exact absurd h (ne_of_isDown hdown).1

theorem Orderly.run (ho : Orderly o) (calls : List Call) : Orderly (o.run calls) := by
  induction calls generalizing o with
  | nil => exact ho
  | cons call calls ih => exact ih (ho.next call)

theorem isDown_run (hdown : o.state.isDown = true) (calls : List Call) :
    (o.run calls).state.isDown = true := by
  induction calls generalizing o with
  | nil => exact hdown
  | cons call calls ih => exact ih ((advances_step o call).isDown hdown)

/-- The states of a run in the order in which they can be seen: before every call, during
its start, and after the last call. -/
def trail (o : Observed) : List Call → List Lifecycle
  | [] => [o.state]
  | call :: calls =>
      o.state :: ((o.step call).seen.drop o.seen.length ++ (o.step call).trail calls)

theorem trail_eq_cons (o : Observed) (calls : List Call) :
    ∃ rest, o.trail calls = o.state :: rest := by
  cases calls <;> exact ⟨_, rfl⟩

theorem ascending_trail (o : Observed) (calls : List Call) : Ascending (o.trail calls) := by
  induction calls generalizing o with
  | nil => exact List.pairwise_singleton _ _
  | cons call calls ih =>
      obtain ⟨seen, hseen, hascending⟩ := (advances_step o call).states
      obtain ⟨rest, hrest⟩ := (o.step call).trail_eq_cons calls
      have hlater := ih (o.step call)
      rw [hrest] at hlater
      rw [trail, hseen, List.drop_left, hrest]
      exact hascending.join hlater

/-- The answer of a call tells the state that the call leaves. -/
theorem running_answer (o : Observed) (strict : Bool) (steps : List StartStep) :
    (o.running strict steps).1 =
      if (o.running strict steps).2.state = .running then .ok true
      else if strict then
        .error (if o.state = .ready ∧ .fail ∈ steps then noWorker
          else .unavailable (o.running strict steps).2.state.name)
      else .ok false := by
  by_cases hready : o.state = .ready
  · by_cases hfail : .fail ∈ steps
    · have hdown := (firstUse_running strict steps hready).isDown_of_spoilt (.inl hfail)
      rw [if_neg (ne_of_isDown hdown).2.2]
      simp only [running_of_ready strict steps hready, hready, hfail, and_self, if_true]
    · simp only [running_of_ready strict steps hready, hfail, and_false, if_false]
      rfl
  · rw [running_of_ne_ready strict steps hready]
    simp only [hready, false_and, if_false]
    rfl

/-- What can be said of a lifecycle after any calls, and of one more call: all that was
seen ascends, there was one start and one effective shutdown at most, only a start that
nothing spoilt makes the cache run, a spoilt one takes it down for good, and a call that
wants the cache to run comes to an answer, which tells the state it leaves. -/
theorem run_forward (calls : List Call) :
    let o : Observed := run {} calls
    Ascending (trail {} calls) ∧ o.starts ≤ 1 ∧ o.shutdowns ≤ 1 ∧ .running ∉ o.seen ∧
      (∀ call, (o.step call).state = .running ↔
        (o.state = .running ∧ call ≠ .shutDown) ∨
          ∃ strict steps, call = .running strict steps ∧ o.state = .ready ∧ ¬Spoilt steps) ∧
      (∀ strict steps, o.state = .ready → Spoilt steps → ∀ later,
        ((o.running strict steps).2.run later).state.isDown = true) ∧
      ∀ strict steps,
        let (answer, after) := o.running strict steps
        Loop strict (some steps) o answer after ∧
          answer =
            if after.state = .running then .ok true
            else if strict then
              .error (if o.state = .ready ∧ .fail ∈ steps then noWorker
                else .unavailable after.state.name)
            else .ok false := by
  have ho : Orderly (run {} calls) := orderly_new.run calls
  exact ⟨ascending_trail {} calls, ho.starts_le, ho.shutdowns_le, ho.running_not_seen,
    step_state_eq_running _,
    fun strict steps hready hspoilt =>
      isDown_run ((firstUse_running strict steps hready).isDown_of_spoilt hspoilt),
    fun strict steps => ⟨loop_running strict steps ho.state_ne, running_answer _ strict steps⟩⟩

end Observed

end BoundedCache.Lifecycle
